import ChipChain.Proofs.Address
import ChipChain.Proofs.Chain.Script
import ChipChain.Proofs.Pll
import Mathlib.Data.List.Nodup
import Mathlib.Data.List.TakeWhile

/-!
# Bringing a chain up

What the scripts of all models have in common (`BroughtUp`): where the addresses
stand and what they are, which writes go to one chip, and what is written to the
ticket mask and the clock. The main statement is `init_bringsUp`.
-/

namespace ChipChain

open Routine Ramp Command

/-! ## What was sent -/

/-- What is sent to a chain of `chips` chips that is brought up, cut at its addresses. -/
structure BroughtUp (model : Model) (chips : Nat) (difficulty : UInt32) (stops : List Frequency)
    (sent before : List Command) (addresses : List UInt8) (after : List Command) : Prop where
  split : sent = before ++ .chainInactive :: addresses.map .setAddress ++ after
  /-- Nothing else has to do with addresses. -/
  addressing : ∀ c ∈ before ++ after, c.isAddressing = false
  spaced : addresses.map UInt8.toNat = (List.range chips).map (· * (256 / chips))
  unaddressed : before.filterMap Command.chipWrite? = []
  addressed : ∀ write ∈ after.filterMap Command.chipWrite?, write.1 ∈ addresses
  /-- Each address gets the same writes in the same order, once. -/
  alike : ∀ address ∈ addresses,
    (after.filterMap Command.chipWrite?).filter (fun write => write.1 = address) =
      model.chipSetup.map (address, ·)
  ticket : sent.filter (Command.writes Register.ticketMask) =
    [.writeAll Register.ticketMask (ticketMaskWord difficulty)]
  /-- The clock is set to the stops of the move, in order, as far as the table reaches. -/
  clock : sent.filter (Command.writes Register.pll0Parameter) =
    (settings stops).flatMap fun d =>
      List.replicate (if model = .bm1397 then 2 else 1)
        (.writeAll Register.pll0Parameter (model.clockWord d))

section

variable {commands : List Command}

theorem chipWrites_of_plain (h : ∀ c ∈ commands, c.Plain) :
    commands.filterMap Command.chipWrite? = [] :=
  List.filterMap_eq_nil_iff.2 fun c hc => (h c hc).properties.2.1

theorem ticketWrites_of_plain (h : ∀ c ∈ commands, c.Plain) :
    commands.filter (Command.writes Register.ticketMask) = [] :=
  List.filter_eq_nil_iff.2 fun c hc => by simp [(h c hc).properties.2.2.1]

theorem clockWrites_of_plain (h : ∀ c ∈ commands, c.Plain) :
    commands.filter (Command.writes Register.pll0Parameter) = [] :=
  List.filter_eq_nil_iff.2 fun c hc => by simp [(h c hc).properties.2.2.2]

end

namespace Script

variable {script : Script}

theorem filterMap_chipWrites (script : Script) (addresses : List UInt8) :
    (addresses.flatMap script.chipWrites).filterMap Command.chipWrite? =
      addresses.flatMap fun address => script.chipSetup.map (address, ·) := by
  rw [List.filterMap_flatMap]
  congr 1
  funext address
  simp [chipWrites, Command.chipWrite?, Command.writeChip, List.filterMap_map, Function.comp_def]

theorem filter_writes_chipWrites {register : UInt8}
    (h : ∀ write ∈ script.chipSetup, write.1 ≠ register) (addresses : List UInt8) :
    (addresses.flatMap script.chipWrites).filter (Command.writes register) = [] := by
  rw [List.filter_eq_nil_iff]
  intro c hc
  obtain ⟨address, -, hc⟩ := List.mem_flatMap.1 hc
  obtain ⟨write, hwrite, rfl⟩ := List.mem_map.1 hc
  simpa [Command.writeChip, Command.writes] using h write hwrite

end Script

namespace Model

variable (model : Model) (settings : List Dividers)

theorem clockWrites_plain :
    ∀ c ∈ settings.flatMap model.clockWrites, c.isAddressing = false ∧ c.chipWrite? = none ∧
      c.writes Register.ticketMask = false := by
  intro c hc
  obtain ⟨d, -, hc⟩ := List.mem_flatMap.1 hc
  cases model with
  | bm1397 =>
      simp only [clockWrites, List.replicate, List.cons_append, List.nil_append, List.mem_cons,
        List.not_mem_nil, or_false] at hc
      rcases hc with rfl | rfl | rfl | rfl <;> exact ⟨rfl, rfl, rfl⟩
  | _ =>
      rw [List.mem_singleton.1 hc]
      exact ⟨rfl, rfl, rfl⟩

theorem filter_writes_clockWrites :
    (settings.flatMap model.clockWrites).filter (Command.writes Register.pll0Parameter) =
      settings.flatMap fun d => List.replicate (if model = .bm1397 then 2 else 1)
        (.writeAll Register.pll0Parameter (model.clockWord d)) := by
  rw [List.filter_flatMap]
  congr 1
  funext d
  cases model <;> rfl

end Model

namespace Script

variable {script : Script} {model : Model} {difficulty : UInt32}
  {stops : List Frequency} {addresses : List UInt8}

theorem Sound.parts (h : script.Sound) (stops : List Frequency) :
    (∀ c ∈ script.opening, c.Plain) ∧ (∀ c ∈ script.cores, c.Plain) ∧
      (∀ c ∈ script.analog, c.Plain) ∧ (∀ c ∈ script.late, c.Plain) ∧
      ∀ c ∈ if (barrier? stops).isNone then script.closing else [], c.Plain := by
  obtain ⟨⟨⟨⟨hopening, hcores⟩, hanalog⟩, hlate⟩, hclosing⟩ := by
    simpa only [List.forall_mem_append] using h.plain
  refine ⟨hopening, hcores, hanalog, hlate, ?_⟩
  split
  · exact hclosing
  · exact nofun

theorem filterMap_chipWrite?_tuning (h : script.Sound) :
    (script.tuning model addresses difficulty stops).filterMap Command.chipWrite? =
      addresses.flatMap fun address => script.chipSetup.map (address, ·) := by
  obtain ⟨-, hcores, hanalog, hlate, hclosing⟩ := h.parts stops
  have hclock : ((settings stops).flatMap model.clockWrites).filterMap Command.chipWrite? = [] :=
    List.filterMap_eq_nil_iff.2 fun c hc => (model.clockWrites_plain _ c hc).2.1
  have hticket : (ticketWrite difficulty).chipWrite? = none := rfl
  simp only [tuning, List.filterMap_append, List.filterMap_cons, hticket,
    chipWrites_of_plain hcores, chipWrites_of_plain hanalog, chipWrites_of_plain hlate,
    chipWrites_of_plain hclosing, hclock, filterMap_chipWrites, List.nil_append, List.append_nil]

theorem filter_ticketMask_tuning (h : script.Sound) :
    (script.tuning model addresses difficulty stops).filter (Command.writes Register.ticketMask) =
      [ticketWrite difficulty] := by
  obtain ⟨-, hcores, hanalog, hlate, hclosing⟩ := h.parts stops
  have hclock : ((settings stops).flatMap model.clockWrites).filter
      (Command.writes Register.ticketMask) = [] :=
    List.filter_eq_nil_iff.2 fun c hc => by simp [(model.clockWrites_plain _ c hc).2.2]
  have hchips := filter_writes_chipWrites (fun write hwrite => (h.chips write hwrite).1) addresses
  have hticket : (ticketWrite difficulty).writes Register.ticketMask = true := rfl
  simp only [tuning, List.filter_append, List.filter_cons, hticket, if_true,
    ticketWrites_of_plain hcores, ticketWrites_of_plain hanalog, ticketWrites_of_plain hlate,
    ticketWrites_of_plain hclosing, hclock, hchips, List.nil_append, List.append_nil]

theorem filter_pll0Parameter_tuning (h : script.Sound) :
    (script.tuning model addresses difficulty stops).filter
        (Command.writes Register.pll0Parameter) =
      (settings stops).flatMap fun d => List.replicate (if model = .bm1397 then 2 else 1)
        (.writeAll Register.pll0Parameter (model.clockWord d)) := by
  obtain ⟨-, hcores, hanalog, hlate, hclosing⟩ := h.parts stops
  have hchips := filter_writes_chipWrites (fun write hwrite => (h.chips write hwrite).2) addresses
  have hticket : (ticketWrite difficulty).writes Register.pll0Parameter = false := rfl
  simp only [tuning, List.filter_append, List.filter_cons, hticket, Bool.false_eq_true, if_false,
    clockWrites_of_plain hcores, clockWrites_of_plain hanalog, clockWrites_of_plain hlate,
    clockWrites_of_plain hclosing, model.filter_writes_clockWrites, hchips, List.nil_append,
    List.append_nil]

theorem isAddressing_tuning (h : script.Sound) :
    ∀ c ∈ script.opening ++ script.tuning model addresses difficulty stops,
      c.isAddressing = false := by
  obtain ⟨hopening, hcores, hanalog, hlate, hclosing⟩ := h.parts stops
  have hplain {commands : List Command} (hall : ∀ c ∈ commands, c.Plain) :
      ∀ c ∈ commands, c.isAddressing = false := fun c hc => (hall c hc).properties.1
  simp only [tuning, List.forall_mem_append, List.forall_mem_cons]
  refine ⟨hplain hopening, hplain hcores, rfl, hplain hanalog, ?_, hplain hlate, ?_,
    hplain hclosing⟩
  · intro c hc
    obtain ⟨address, -, hc⟩ := List.mem_flatMap.1 hc
    obtain ⟨write, -, rfl⟩ := List.mem_map.1 hc
    rfl
  · exact fun c hc => (model.clockWrites_plain _ c hc).1

theorem filter_flatMap_pair {setup : List (UInt8 × UInt32)} (hnodup : addresses.Nodup)
    {address : UInt8} (hmem : address ∈ addresses) :
    (addresses.flatMap fun chip => setup.map (chip, ·)).filter (fun write => write.1 = address) =
      setup.map (address, ·) := by
  induction addresses with
  | nil => cases hmem
  | cons chip rest ih =>
      obtain ⟨hfresh, hrest⟩ := List.nodup_cons.1 hnodup
      rw [List.flatMap_cons, List.filter_append]
      rcases List.mem_cons.1 hmem with rfl | hlater
      · have hnone : (rest.flatMap fun chip => setup.map (chip, ·)).filter
            (fun write => write.1 = address) = [] := by
          rw [List.filter_eq_nil_iff]
          intro write hwrite
          obtain ⟨chip, hchip, hwrite⟩ := List.mem_flatMap.1 hwrite
          obtain ⟨_, -, rfl⟩ := List.mem_map.1 hwrite
          exact fun heq => hfresh (of_decide_eq_true heq ▸ hchip)
        rw [hnone, List.append_nil, List.filter_map]
        simp [Function.comp_def]
      · have hne : chip ≠ address := fun heq => hfresh (heq ▸ hlater)
        rw [ih hrest hlater, List.filter_map]
        simp [Function.comp_def, hne]

theorem Sound.broughtUp (h : script.Sound) (difficulty : UInt32) (stops : List Frequency)
    (hsetup : script.chipSetup = model.chipSetup) {chips : Nat} (hpos : 0 < chips)
    (hle : chips ≤ 256) {plan : AddressPlan}
    (hplan : AddressPlan.evenlySpaced chips = .ok plan) :
    BroughtUp model chips difficulty stops (script.sent model (.ok plan) difficulty stops)
      script.opening plan.addresses (script.tuning model plan.addresses difficulty stops) := by
  have hplanned := AddressPlan.spaced_of_withInterval hplan
  have hspaced := hplanned.addresses_eq
  have hnodup : plan.addresses.Nodup :=
    (hplanned.ascending (Nat.div_pos hle hpos)).imp fun h => UInt8.ne_of_lt h
  have hsent : script.sent model (.ok plan) difficulty stops =
      script.opening ++ .chainInactive :: plan.addresses.map .setAddress ++
        script.tuning model plan.addresses difficulty stops := by
    rw [sent, List.append_assoc]
  have haddresses (register : UInt8) :
      (Command.chainInactive :: plan.addresses.map .setAddress).filter
        (Command.writes register) = [] := by
    rw [List.filter_eq_nil_iff]
    intro c hc
    rcases List.mem_cons.1 hc with rfl | hc
    · exact Bool.false_ne_true
    · obtain ⟨address, -, rfl⟩ := List.mem_map.1 hc
      exact Bool.false_ne_true
  obtain ⟨hopening, -⟩ := h.parts stops
  constructor
  case split => exact hsent
  case addressing => exact isAddressing_tuning h
  case spaced => exact hspaced
  case unaddressed => exact chipWrites_of_plain hopening
  case addressed =>
    intro write hwrite
    rw [filterMap_chipWrite?_tuning h] at hwrite
    obtain ⟨address, haddress, hwrite⟩ := List.mem_flatMap.1 hwrite
    obtain ⟨_, -, rfl⟩ := List.mem_map.1 hwrite
    exact haddress
  case alike =>
    intro address haddress
    rw [filterMap_chipWrite?_tuning h, hsetup]
    exact filter_flatMap_pair hnodup haddress
  case ticket =>
    rw [hsent, List.filter_append, List.filter_append, ticketWrites_of_plain hopening, haddresses,
      filter_ticketMask_tuning h]
    rfl
  case clock =>
    rw [hsent, List.filter_append, List.filter_append, clockWrites_of_plain hopening, haddresses,
      filter_pll0Parameter_tuning h, List.nil_append, List.nil_append]

end Script

/-! ## Bring-up as a whole -/

namespace Model

/-- On a link whose sendings succeed, and where a chip answers, bring-up tells how many chips
answered, as far as the count reaches, unless the chips cannot be addressed or a stop of the clock
has no setting; and it sends what it is to send, whatever the clock stood at. -/
theorem init_bringsUp (model : Model) (w : World) (target : Frequency) (chips : Nat)
    (difficulty : UInt32) (hsends : w.line.sendFault = none)
    (hanswered : 0 < Bus.identities model.family w.line.replies) :
    ∃ outcome sent after,
      (model.driver.init target chips difficulty).run w = (outcome, after) ∧
      after.frames = w.frames ++ sent.map Command.frame ∧
      (chips = 0 ∨ 256 < chips →
        outcome = .error (.addresses ⟨chips, 256 / chips⟩) ∧ after.ramp = w.ramp ∧
          ∀ c ∈ sent, c.isAddressing = false) ∧
      (0 < chips → chips ≤ 256 →
        outcome = (match barrier? (w.ramp.plan target) with
          | none => .ok (min (Bus.identities model.family w.line.replies) 65535)
          | some stop => .error (.noDividers stop)) ∧
        after.ramp = w.ramp.movedAlong (w.ramp.plan target) ∧
        ∃ before addresses rest,
          BroughtUp model chips difficulty (w.ramp.plan target) sent before addresses rest) := by
  obtain ⟨rest, hemits⟩ := model.init_emits target chips difficulty w.stand hanswered
  obtain ⟨after, hrun, -, hstand, hframes⟩ := hemits w hsends rfl
  have hsound := model.script_sound target chips
  refine ⟨_, _, after, hrun, hframes, ?_, ?_⟩
  · intro hchips
    rw [AddressPlan.evenlySpaced_eq_error hchips] at hstand ⊢
    obtain ⟨hopening, -⟩ := hsound.parts []
    refine ⟨rfl, congrArg Stand.ramp hstand, fun c hc => (hopening c ?_).properties.1⟩
    rwa [Script.sent, List.append_nil] at hc
  · intro hpos hle
    have hplan := AddressPlan.evenlySpaced_eq_ok hpos hle
    have hbrought := hsound.broughtUp difficulty (w.ramp.plan target)
      (model.script_chipSetup target chips) hpos hle hplan
    rw [hplan] at hstand ⊢
    refine ⟨?_, congrArg Stand.ramp hstand, _, _, _, hbrought⟩
    change (outcomeOf (w.ramp.plan target)).map _ = _
    rw [outcomeOf]
    cases barrier? (w.ramp.plan target) <;> rfl

/-- What a chip of the model BM1370 answers to the identity request. -/
def identity : Bytes :=
  [0xaa, 0x55, 0x13, 0x70, 0x00, 0x00, 0x00, 0x00, 0x00, 0x00, 0x10]

/-- A chain of the model BM1370 on which so many chips answer. -/
def answering (count : Nat) : World :=
  { World.fresh .bm1370 with line := { replies := List.replicate count (.bytes identity) } }

theorem identities_answering (count : Nat) :
    Bus.identities bm1370.family (answering count).line.replies = count := by
  change Bus.identities bm1370.family (List.replicate count (.bytes identity)) = count
  induction count with
  | zero => rfl
  | succ count ih =>
      have hfull : Bus.IsIdentity bm1370.family identity := by decide +kernel
      have hanswers : Bus.answers bm1370.family.identityLength
          (List.replicate (count + 1) (.bytes identity)) =
        identity :: Bus.answers bm1370.family.identityLength
          (List.replicate count (.bytes identity)) := rfl
      rw [Bus.identities, hanswers, List.countP_cons_of_pos (by simpa using hfull)]
      exact congrArg (· + 1) ih

theorem plan_boot (count : Nat) : (answering count).ramp.plan bootFrequency = [] := by
  change Ramp.boot.plan bootFrequency = []
  rw [plan]
  exact if_pos (by decide)

def climbStops : List Frequency :=
  [⟨62500000⟩, ⟨68750000⟩, ⟨75000000⟩]

theorem plan_climb (count : Nat) : (answering count).ramp.plan ⟨75000000⟩ = climbStops := by
  change Ramp.boot.plan ⟨75000000⟩ = climbStops
  decide +kernel

theorem lookup_climb :
    climbStops.map Dividers.lookup =
      [⟨175, 2, 7, 5⟩, ⟨165, 2, 6, 5⟩, ⟨168, 2, 7, 4⟩].map some := by
  have hsecond : Dividers.lookup ⟨68750000⟩ = some ⟨165, 2, 6, 5⟩ :=
    Dividers.lookup_of_best (by decide) (by decide) (by decide +kernel)
  have hthird : Dividers.lookup ⟨75000000⟩ = some ⟨168, 2, 7, 4⟩ :=
    Dividers.lookup_of_best (by decide) (by decide) (by decide +kernel)
  simp only [climbStops, List.map_cons, List.map_nil, Dividers.lookup_firstStop, hsecond, hthird]

theorem isSome_lookup_climb : ∀ stop ∈ climbStops, (Dividers.lookup stop).isSome := by
  intro stop hstop
  have hfound := List.mem_map_of_mem (f := Dividers.lookup) hstop
  rw [lookup_climb] at hfound
  obtain ⟨d, -, hd⟩ := List.mem_map.1 hfound
  rw [← hd]
  rfl

/-- Three chips are expected and one answers, and the clock is taken up by three stops. -/
theorem init_bringsUp_of_climb :
    ∃ after sent before addresses rest,
      (bm1370.driver.init ⟨75000000⟩ 3 256).run (answering 1) = (.ok 1, after) ∧
        after.frames = sent.map Command.frame ∧ after.ramp.current = ⟨75000000⟩ ∧
        BroughtUp .bm1370 3 256 climbStops sent before addresses rest ∧
        sent.filter (Command.writes Register.pll0Parameter) =
          [⟨175, 2, 7, 5⟩, ⟨165, 2, 6, 5⟩, ⟨168, 2, 7, 4⟩].map fun d =>
            .writeAll Register.pll0Parameter (bm1370.clockWord d) := by
  have hcount := identities_answering 1
  obtain ⟨outcome, sent, after, hrun, hframes, -, hup⟩ :=
    init_bringsUp .bm1370 (answering 1) ⟨75000000⟩ 3 256 rfl (by omega)
  obtain ⟨houtcome, hramp, before, addresses, rest, hbrought⟩ := hup (by decide) (by decide)
  rw [plan_climb] at houtcome hramp hbrought
  have hreachable : reachable climbStops = climbStops :=
    List.takeWhile_eq_self_iff.2 isSome_lookup_climb
  have hbarrier : barrier? climbStops = none :=
    List.find?_eq_none.2 fun stop hstop => by
      simp [Option.isSome_iff_ne_none.1 (isSome_lookup_climb stop hstop)]
  have hsettings : settings climbStops = [⟨175, 2, 7, 5⟩, ⟨165, 2, 6, 5⟩, ⟨168, 2, 7, 4⟩] := by
    have hfound := congrArg (List.filterMap id) lookup_climb
    rw [List.filterMap_map, List.filterMap_map] at hfound
    rw [settings, hreachable]
    exact hfound
  have hclock := hbrought.clock
  rw [hsettings] at hclock
  rw [movedAlong, hreachable] at hramp
  rw [hbarrier, hcount] at houtcome
  rw [houtcome] at hrun
  exact ⟨after, sent, before, addresses, rest, hrun, hframes, congrArg Ramp.current hramp,
    hbrought, hclock⟩

theorem run_init_answering {count : Nat} (hpos : 0 < count) :
    ((bm1370.driver.init bootFrequency 1 256).run (answering count)).1 =
      .ok (min count 65535) := by
  have hcount := identities_answering count
  obtain ⟨rest, hemits⟩ := bm1370.init_emits bootFrequency 1 256
    ⟨(answering count).ramp, (answering count).line.replies⟩ (by rwa [hcount])
  obtain ⟨after, hrun, -⟩ := hemits (answering count) rfl rfl
  rw [hrun, AddressPlan.evenlySpaced_eq_ok (by decide) (by decide), plan_boot, hcount]
  rfl

/-- More chips answer than the count can tell. -/
theorem count_ends :
    Bus.identities bm1370.family (answering 65536).line.replies = 65536 ∧
      ((bm1370.driver.init bootFrequency 1 256).run (answering 65536)).1 = .ok 65535 :=
  ⟨identities_answering 65536, run_init_answering (by decide)⟩

end Model

end ChipChain
