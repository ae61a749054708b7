import ChipChain.Daemon.Startup
import ChipChain.Proofs.Chain.BringUp
import ChipChain.Proofs.Chain.Halting
import ChipChain.Proofs.Wire.Codec

/-!
# The nonce split of a start

A start divides the nonce space twice, once as the chain is brought up and once as the
interval between jobs is computed. Both divisions are the one that belongs to the
addresses that were handed out, however many chips answered and whatever else the link
did. The main statement is `startUp_splits_once`.
-/

namespace ChipChain

open Routine Ramp Command

/-! ## Runs that end well -/

namespace Routine

variable {ε α β : Type}

theorem run_note_bind_eq_ok {entry : Entry} {f : Unit → Routine ε β} {w after : World} {value : β}
    (h : (note entry >>= f).run w = (.ok value, after)) :
    ∃ noted : World, noted.frames = w.frames ∧ (f ()).run noted = (.ok value, after) :=
  ⟨{ w with journal := w.journal.push entry }, rfl, h⟩

/-- A run that ends well has met no failed sending, so it sends what it sends on a link without
failures. -/
theorem Stops.sent_of_ok {p : Routine ChainError α} (hp : p.Stops) {w after : World} {value : α}
    {sent : List Command} {outcome : Except ChainError α} {s : Stand}
    (hemits : p.Emits w.stand sent outcome s) (h : p.run w = (.ok value, after)) :
    outcome = .ok value ∧ after.stand = s ∧ after.frames = w.frames ++ sent.map Command.frame := by
  obtain ⟨unharmed, hrun, -, hstand, hframes⟩ := hemits (w.withFault none) rfl rfl
  cases hfault : w.line.sendFault with
  | none =>
      have hsame : w.withFault none = w := by
        rw [← hfault]
        rfl
      rw [hsame, h] at hrun
      cases hrun
      exact ⟨rfl, hstand, hsame ▸ hframes⟩
  | some fault =>
      obtain ⟨n, e⟩ := fault
      have hsame : w.withFault (some (n, e)) = w := by
        rw [← hfault]
        rfl
      obtain ⟨frames, -, -, hcut, hagree⟩ := hp.run_withFault w n e
      have hlast : ¬ n < frames.length := by
        intro hlt
        have hstopped : StoppedBy (p.run (w.withFault (some (n, e)))).1 (some e) := hcut hlt
        rw [hsame, h] at hstopped
        cases hstopped
      have hagreed : p.run (w.withFault (some (n, e))) = ((p.run (w.withFault none)).1,
        (p.run (w.withFault none)).2.withFault (some (n - frames.length, e))) :=
        hagree (Nat.le_of_not_lt hlast)
      rw [hsame, h, hrun] at hagreed
      obtain ⟨hvalue, rfl⟩ := Prod.mk.inj hagreed
      exact ⟨hvalue.symm, hstand, hframes⟩

end Routine

/-! ## Bringing the chain up -/

theorem Rolling.chipSetup_keepsSplit (profile : RollingProfile) :
    ∀ write ∈ chipSetup profile, write.1 ≠ Register.hashCountingNumber := by
  intro write hwrite
  simp only [chipSetup, List.mem_cons, List.mem_append, List.mem_map, List.not_mem_nil,
    or_false] at hwrite
  rcases hwrite with rfl | rfl | ⟨word, -, rfl⟩ | rfl <;> dsimp only <;> decide

namespace Model

variable {model : Model} {target : Frequency} {chips : Nat} {difficulty : UInt32}

theorem init_emits_of_unanswered (model : Model) (target : Frequency) (chips : Nat)
    (difficulty : UInt32) {s : Stand} (h : Bus.identities model.family s.replies = 0) :
    ∃ sent rest, (model.driver.init target chips difficulty).Emits s sent (.ok 0)
      { s with replies := rest } := by
  have hcount (family : Family) (hid : family.chipId ≠ 0) (hlength : 0 < family.identityLength)
      (hnone : Bus.identities family s.replies = 0) : ∃ rest,
      (Bus.countChips family chips).Emits s [] (.ok 0) { s with replies := rest } := by
    obtain ⟨rest, hemits⟩ := Bus.countChips_emits (s := s) hid hlength chips
    rw [hnone, Nat.zero_min] at hemits
    exact ⟨rest, hemits⟩
  cases model with
  | bm1397 =>
      obtain ⟨rest, hnone⟩ := hcount Midstate.family (by decide) (by decide) h
      exact ⟨_, rest, Emits.bind (Bus.send_emits trivial) (Emits.bind hnone (Emits.done 0 _))⟩
  | _ =>
      obtain ⟨rest, hnone⟩ := hcount _ (by decide) (by decide) h
      exact ⟨_, rest, Emits.bind (Emits.times (Rolling.setVersionMask_emits _ s) 3)
        (Emits.bind (Bus.send_emits trivial) (Emits.bind hnone (Emits.done 0 _)))⟩

/-- Bring-up that finds chips has followed the model's script to its end. -/
theorem sent_of_init {w after : World} {detected : Nat}
    (h : (model.driver.init target chips difficulty).run w = (.ok detected, after))
    (hdetected : detected ≠ 0) :
    ∃ plan, AddressPlan.evenlySpaced chips = .ok plan ∧ barrier? (w.ramp.plan target) = none ∧
      after.frames = w.frames ++ ((model.script target chips).sent model (.ok plan) difficulty
        (w.ramp.plan target)).map Command.frame := by
  have hstops := model.upkeep_stops (model.init_upkeep target chips difficulty)
  by_cases hanswered : Bus.identities model.family w.line.replies = 0
  case pos =>
    obtain ⟨sent, rest, hemits⟩ := model.init_emits_of_unanswered target chips difficulty
      (s := w.stand) hanswered
    obtain ⟨hzero, -⟩ := hstops.sent_of_ok hemits h
    cases hzero
    exact absurd rfl hdetected
  case neg =>
    obtain ⟨rest, hemits⟩ := model.init_emits target chips difficulty w.stand
      (Nat.pos_of_ne_zero hanswered)
    obtain ⟨houtcome, -, hframes⟩ := hstops.sent_of_ok hemits h
    change Script.outcome _ (w.ramp.plan target) _ = _ at houtcome
    cases hplan : AddressPlan.evenlySpaced chips with
    | error e =>
        rw [hplan] at houtcome
        cases houtcome
    | ok plan =>
        rw [hplan] at houtcome hframes
        refine ⟨plan, rfl, ?_, hframes⟩
        cases hbarrier : barrier? (w.ramp.plan target) with
        | none => rfl
        | some stop =>
            rw [Script.outcome, outcomeOf, hbarrier] at houtcome
            cases houtcome

/-! ## Where the split is written -/

/-- The write that divides the nonce space among chips at an interval and their cores. -/
def splitWrite (model : Model) (interval : Nat) (f : Frequency) : Command :=
  .writeAll Register.hashCountingNumber (hashCountingNumber model.family.coreCount interval f)

theorem plan_spaced {plan : AddressPlan} (h : AddressPlan.evenlySpaced chips = .ok plan) :
    plan.addresses.map UInt8.toNat = (List.range chips).map (· * plan.interval) := by
  have hspaced := AddressPlan.spaced_of_withInterval h
  rw [hspaced.interval_eq, hspaced.addresses_eq]

theorem script_splits (h : model ≠ .bm1397) (target : Frequency) (chips : Nat) :
    let script := model.script target chips
    (script.opening ++ script.cores ++ script.analog ++ script.late).all
        (!·.writes Register.hashCountingNumber) = true ∧
      (∀ write ∈ script.chipSetup, write.1 ≠ Register.hashCountingNumber) ∧
      script.closing.filter (Command.writes Register.hashCountingNumber) =
        [model.splitWrite (addressInterval chips) target] := by
  dsimp only
  rw [script_chipSetup]
  cases model with
  | bm1397 => exact absurd rfl h
  | _ => exact ⟨rfl, Rolling.chipSetup_keepsSplit _, rfl⟩

theorem clockWrites_keepSplit (h : model ≠ .bm1397) (settings : List Dividers) :
    (settings.flatMap model.clockWrites).all (!·.writes Register.hashCountingNumber) = true := by
  rw [List.all_flatMap]
  refine List.all_eq_true.2 fun d _ => ?_
  cases model with
  | bm1397 => exact absurd rfl h
  | _ => rfl

theorem fits_sent (model : Model) (target : Frequency) (chips : Nat) (plan : AddressPlan)
    (difficulty : UInt32) (stops : List Frequency) :
    ∀ c ∈ (model.script target chips).sent model (.ok plan) difficulty stops, c.Fits := by
  have hsound := model.script_sound target chips
  obtain ⟨hopening, hcores, hanalog, hlate, hclosing⟩ := hsound.parts stops
  have hplain {commands : List Command} (h : ∀ c ∈ commands, c.Plain) :
      ∀ c ∈ commands, c.Fits := by
    intro c hc
    have hc := h c hc
    cases c with
    | job payload => exact hc.elim
    | _ => trivial
  simp only [Script.sent, Script.tuning, List.forall_mem_append, List.forall_mem_cons]
  refine ⟨hplain hopening, ⟨trivial, ?_⟩, hplain hcores, trivial, hplain hanalog, ?_, hplain hlate,
    ?_, hplain hclosing⟩
  · intro c hc
    obtain ⟨address, -, rfl⟩ := List.mem_map.1 hc
    trivial
  · intro c hc
    obtain ⟨address, -, hc⟩ := List.mem_flatMap.1 hc
    obtain ⟨write, -, rfl⟩ := List.mem_map.1 hc
    trivial
  · intro c hc
    obtain ⟨d, -, hc⟩ := List.mem_flatMap.1 hc
    cases model with
    | bm1397 =>
        obtain hc | hc := List.mem_append.1 hc
        · rw [List.eq_of_mem_replicate hc]
          trivial
        · simp only [List.mem_cons, List.not_mem_nil, or_false, or_self] at hc
          rw [hc]
          trivial
    | _ =>
        rw [List.mem_singleton.1 hc]
        trivial

theorem filter_split_sent (hrolls : model ≠ .bm1397) {plan : AddressPlan}
    {stops : List Frequency} (hplan : AddressPlan.evenlySpaced chips = .ok plan)
    (hbarrier : barrier? stops = none) :
    ((model.script target chips).sent model (.ok plan) difficulty stops).filter
        (Command.writes Register.hashCountingNumber) =
      [model.splitWrite plan.interval target] := by
  have hnone {commands : List Command}
      (h : commands.all (!·.writes Register.hashCountingNumber) = true) :
      commands.filter (Command.writes Register.hashCountingNumber) = [] :=
    List.filter_eq_nil_iff.2 fun c hc => by simpa using List.all_eq_true.1 h c hc
  obtain ⟨hparts, hchips, hclosing⟩ := model.script_splits hrolls target chips
  obtain ⟨⟨⟨hopening, hcores⟩, hanalog⟩, hlate⟩ := by
    simpa only [List.all_append, Bool.and_eq_true] using hparts
  have haddresses : (Command.chainInactive :: plan.addresses.map .setAddress).all
      (!·.writes Register.hashCountingNumber) = true := by
    simp [Command.writes]
  have hticket : (Script.ticketWrite difficulty).writes Register.hashCountingNumber = false := rfl
  simp only [Script.sent, Script.tuning, List.filter_append, List.filter_cons, hticket,
    Bool.false_eq_true, if_false, hbarrier, Option.isNone_none, if_true, hnone hopening,
    hnone haddresses, hnone hcores, hnone hanalog, hnone hlate,
    hnone (clockWrites_keepSplit hrolls _), Script.filter_writes_chipWrites hchips, hclosing,
    AddressPlan.addressInterval_of_plan hplan, List.nil_append]

/-! ## The other stages of a start -/

theorem exists_profile (h : model ≠ .bm1397) :
    ∃ profile : RollingProfile, model.driver = Rolling.driver profile ∧
      profile.family = model.family := by
  cases model with
  | bm1397 => exact absurd rfl h
  | bm1366 => exact ⟨.bm1366, rfl, rfl⟩
  | bm1368 => exact ⟨.bm1368, rfl, rfl⟩
  | bm1370 => exact ⟨.bm1370, rfl, rfl⟩

theorem sent_of_setMaxBaud (hrolls : model ≠ .bm1397) {w after : World} {baud : Nat}
    (h : model.driver.setMaxBaud.run w = (.ok baud, after)) :
    after.frames = w.frames ++
      [Command.frame (.writeAll Register.fastUartConfiguration 0x11300200)] := by
  have hstops := model.upkeep_stops model.setMaxBaud_upkeep
  obtain ⟨profile, hdriver, -⟩ := exists_profile hrolls
  rw [hdriver] at h hstops
  have hemits : (Rolling.setMaxBaud profile).Emits w.stand
      [.writeAll Register.fastUartConfiguration 0x11300200] (.ok profile.family.maxBaud) w.stand :=
    Emits.silent_bind (Emits.note _ _) (Emits.bind_silent (Bus.writeAll_emits _ _) (Emits.done _ _))
  exact (hstops.sent_of_ok hemits h).2.2

theorem sent_of_setNonceRange (hrolls : model ≠ .bm1397) {w after : World} {plan : AddressPlan}
    (hplan : AddressPlan.evenlySpaced chips = .ok plan)
    (h : (model.driver.setNonceRange target chips).run w = (.ok (), after)) :
    after.frames = w.frames ++ [(model.splitWrite plan.interval target).frame] := by
  have hstops := model.upkeep_stops (model.setNonceRange_upkeep target chips)
  obtain ⟨profile, hdriver, hfamily⟩ := exists_profile hrolls
  rw [hdriver] at h hstops
  have hemits := Rolling.setNonceRange_emits profile target chips w.stand
  rw [hfamily, AddressPlan.addressInterval_of_plan hplan] at hemits
  exact (hstops.sent_of_ok hemits h).2.2

end Model

namespace Controller

variable {model : Model} {jobInterval : Option Nat} {target : Frequency} {chips : Nat}
  {w after : World}

theorem run_init_eq_ok {difficulty : UInt32} {detected : Nat}
    (h : ((ofModel model jobInterval).init target chips difficulty).run w = (.ok detected, after)) :
    detected ≠ 0 ∧ ∃ noted : World, noted.frames = w.frames ∧
      (model.driver.init target chips difficulty).run noted = (.ok detected, after) := by
  unfold init at h
  obtain ⟨noted, hnoted, h⟩ := run_note_bind_eq_ok h
  obtain ⟨count, between, hinit, hrest⟩ := run_bind_eq_ok h
  split at hrest
  case isTrue =>
    obtain ⟨_, -, hfail⟩ := run_note_bind_eq_ok hrest
    cases hfail
  case isFalse hne =>
    cases hrest
    exact ⟨hne, noted, hnoted, hinit⟩

theorem sent_of_jobIntervalMs (hrolls : model ≠ .bm1397) {plan : AddressPlan} {interval : Float}
    (hplan : AddressPlan.evenlySpaced chips = .ok plan)
    (h : ((ofModel model jobInterval).jobIntervalMs target chips).run w = (.ok interval, after)) :
    after.frames = w.frames ++ [(model.splitWrite plan.interval target).frame] := by
  unfold jobIntervalMs at h
  obtain ⟨noted, hnoted, h⟩ := run_note_bind_eq_ok h
  obtain ⟨_, between, hrange, hrest⟩ := run_bind_eq_ok h
  have hframes := Model.sent_of_setNonceRange hrolls hplan hrange
  obtain ⟨profile, hdriver, -⟩ := Model.exists_profile hrolls
  obtain ⟨needed, waited, htimeout, hanswer⟩ := run_bind_eq_ok hrest
  have hdone : (ofModel model jobInterval).driver = Rolling.driver profile := hdriver
  rw [hdone] at htimeout
  cases htimeout
  rw [← hnoted, ← hframes]
  dsimp only at hanswer
  split at hanswer
  case h_1 =>
    obtain ⟨last, hlast, hanswer⟩ := run_note_bind_eq_ok hanswer
    cases hanswer
    exact hlast
  case h_2 =>
    cases hanswer
    rfl

end Controller

/-! ## The start as a whole -/

namespace Daemon

theorem frames_of_setBaud {baud : Nat} {w after : World}
    {outcome : Except DaemonError (Except LinkError Unit)}
    (h : (setBaud baud).run w = (outcome, after)) : after.frames = w.frames := by
  have hframes : (w.perform (.setBaud baud)).2.2.frames = w.frames :=
    World.frames_perform (by simp) w
  cases h
  exact hframes

/-- A start that succeeds has followed the model's script, raised the baud rate, and divided the
nonce space once more. -/
theorem sent_of_startUp {d : Daemon} (hrolls : d.settings.model ≠ .bm1397) {w after : World}
    {interval : Float} (h : d.startUp.run w = (.ok interval, after)) :
    ∃ plan stops, AddressPlan.evenlySpaced d.settings.chipCount.toNat = .ok plan ∧
      barrier? stops = none ∧
      after.frames = w.frames ++
        ((d.settings.model.script d.settings.frequency d.settings.chipCount.toNat).sent
          d.settings.model (.ok plan) d.settings.difficulty stops ++
        [.writeAll Register.fastUartConfiguration 0x11300200,
          d.settings.model.splitWrite plan.interval d.settings.frequency]).map Command.frame := by
  unfold startUp at h
  dsimp only at h
  split at h
  case isTrue => cases h
  obtain ⟨detected, ready, hready, h⟩ := run_bind_eq_ok h
  obtain ⟨hdetected, begun, hbegun, hinit⟩ := Controller.run_init_eq_ok (run_mapError_eq_ok hready)
  obtain ⟨plan, hplan, hbarrier, hsent⟩ := Model.sent_of_init hinit hdetected
  obtain ⟨told, htold, h⟩ := run_note_bind_eq_ok h
  obtain ⟨baud, raised, hraise, h⟩ := run_bind_eq_ok h
  have hraised := Model.sent_of_setMaxBaud hrolls (run_mapError_eq_ok hraise)
  obtain ⟨answer, switched, hswitch, h⟩ := run_bind_eq_ok h
  have hswitched := frames_of_setBaud hswitch
  split at h
  case h_1 => cases h
  obtain ⟨fast, hfast, h⟩ := run_note_bind_eq_ok h
  obtain ⟨computed, divided, hdivide, h⟩ := run_bind_eq_ok h
  have hdivided := Controller.sent_of_jobIntervalMs hrolls hplan (run_mapError_eq_ok hdivide)
  obtain ⟨last, hlast, h⟩ := run_note_bind_eq_ok h
  cases h
  refine ⟨plan, _, hplan, hbarrier, ?_⟩
  rw [hlast, hdivided, hfast, hswitched, hraised, htold, hsent, hbegun, List.map_append,
    List.append_assoc, List.append_assoc]
  rfl

/-- A start that succeeds hands out one plan of addresses, and all that it writes to divide the
nonce space is the division for the interval of that plan, at the frequency of the settings. -/
theorem startUp_splits_once (d : Daemon) (hrolls : d.settings.model ≠ .bm1397) {w after : World}
    {interval : Float} (h : d.startUp.run w = (.ok interval, after)) :
    ∃ plan before rest,
      AddressPlan.evenlySpaced d.settings.chipCount.toNat = .ok plan ∧
      plan.addresses.map UInt8.toNat =
        (List.range d.settings.chipCount.toNat).map (· * plan.interval) ∧
      (let sent := before ++ .chainInactive :: plan.addresses.map .setAddress ++ rest
      after.frames = w.frames ++ sent.map Command.frame ∧
        Command.readAll? (sent.flatMap Command.frame) = some sent ∧
        (∀ c ∈ before ++ rest, c.isAddressing = false) ∧
        sent.filter (Command.writes Register.hashCountingNumber) =
          List.replicate 2 (.writeAll Register.hashCountingNumber
            (hashCountingNumber d.settings.model.family.coreCount plan.interval
              d.settings.frequency))) := by
  obtain ⟨plan, stops, hplan, hbarrier, hframes⟩ := sent_of_startUp hrolls h
  let script := d.settings.model.script d.settings.frequency d.settings.chipCount.toNat
  let tuning := script.tuning d.settings.model plan.addresses d.settings.difficulty stops
  let last : List Command := [.writeAll Register.fastUartConfiguration 0x11300200,
    d.settings.model.splitWrite plan.interval d.settings.frequency]
  have hsent : script.sent d.settings.model (.ok plan) d.settings.difficulty stops ++ last =
      script.opening ++ .chainInactive :: plan.addresses.map .setAddress ++ (tuning ++ last) := by
    rw [Script.sent, List.append_assoc, List.append_assoc, List.append_assoc]
  have hsplit : (script.sent d.settings.model (.ok plan) d.settings.difficulty stops).filter
      (Command.writes Register.hashCountingNumber) =
        [d.settings.model.splitWrite plan.interval d.settings.frequency] :=
    Model.filter_split_sent hrolls hplan hbarrier
  refine ⟨plan, script.opening, tuning ++ last, hplan, Model.plan_spaced hplan, ?_, ?_, ?_, ?_⟩
  · rw [← hsent]
    exact hframes
  · refine Command.readAll?_flatMap_frame ?_
    rw [← hsent, List.forall_mem_append]
    refine ⟨Model.fits_sent _ _ _ _ _ _, ?_⟩
    intro c hc
    simp only [last, List.mem_cons, List.not_mem_nil, or_false] at hc
    obtain rfl | rfl := hc <;> trivial
  · intro c hc
    rw [← List.append_assoc, List.mem_append] at hc
    obtain hc | hc := hc
    · exact Script.isAddressing_tuning (Model.script_sound _ _ _) c hc
    · simp only [last, List.mem_cons, List.not_mem_nil, or_false] at hc
      obtain rfl | rfl := hc <;> rfl
  · rw [← hsent, List.filter_append, hsplit]
    rfl

def forThree : Daemon where
  settings := ⟨.bm1370, 3, bootFrequency, 1150, 256, none, false⟩
  hasWork := false
  selfRunning := true
  listen := none

/-- Two of three chips answer, and the nonce space is divided for three both times. -/
theorem startUp_splits_once_of_three :
    ∃ interval after before rest,
      forThree.settings.model ≠ .bm1397 ∧
      forThree.startUp.run (Model.answering 2) = (.ok interval, after) ∧
      (let sent := before ++ .chainInactive :: [0, 85, 170].map .setAddress ++ rest
      after.frames = sent.map Command.frame ∧
        sent.filter (Command.writes Register.hashCountingNumber) =
          List.replicate 2 (.writeAll Register.hashCountingNumber
            (hashCountingNumber 128 85 bootFrequency))) := by
  have hrolls : forThree.settings.model ≠ .bm1397 := by decide
  have hok : (forThree.startUp.run (Model.answering 2)).1.isOk := by decide +kernel
  cases hrun : forThree.startUp.run (Model.answering 2) with
  | mk outcome after =>
      rw [hrun] at hok
      cases outcome with
      | error e => cases hok
      | ok interval =>
          obtain ⟨plan, before, rest, hplan, -, hframes, -, -, hsplit⟩ :=
            startUp_splits_once forThree hrolls hrun
          have hthree : AddressPlan.evenlySpaced forThree.settings.chipCount.toNat =
              .ok ⟨85, [0, 85, 170]⟩ := by decide
          obtain rfl := Except.ok.inj (hplan.symm.trans hthree)
          exact ⟨interval, after, before, rest, hrolls, rfl, hframes, hsplit⟩

end Daemon

end ChipChain
