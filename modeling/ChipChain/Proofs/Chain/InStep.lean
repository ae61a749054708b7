import ChipChain.Proofs.Address
import ChipChain.Proofs.Chain.Halting
import ChipChain.Proofs.Chain.Script
import ChipChain.Proofs.Chain.Steering
import ChipChain.Proofs.Pll

/-!
# The ramp and the chips

The driver's ramp is meant to say where the chips' clock stands. It does, except that a
setting may be written twice: a call that fails on the link between the two leaves the
ramp at the stop before, while the chips have been told of the next one
(`ramp_left_behind`). What holds of every history is `clock_in_step`.
-/

namespace ChipChain

open Routine Driver

namespace Model

/-- The last word for the clock is that of the frequency at which the ramp stands; if there is none
yet, the ramp stands where chips boot. -/
def InStep (model : Model) (w : World) : Prop :=
  match w.clockValues.getLast? with
  | none => w.ramp.current = Ramp.bootFrequency
  | some word => model.stopWord? w.ramp.current = some word

/-- The call failed on the link when of the two writes of a stop, a hop from where the ramp stands,
the first had gone out. -/
structure CutShort (model : Model) (w : World) (call : Incident) (stop : Frequency) : Prop where
  twice : model = .bm1397
  failed : ∃ fault, (model.driver.serve w call).1.error? = some (.link fault)
  hop : Ramp.Hop w.ramp.step.hz (model.driver.serve w call).2.ramp.current stop
  written : ∃ word, (model.driver.serve w call).2.clockValues.getLast? = some word ∧
    model.stopWord? stop = some word

/-- After these incidents the chips have been told of a stop that the ramp does not stand at: a call
was cut short, and since then neither words nor ramp have changed. -/
structure LeftBehind (model : Model) (start : World) (incidents before later : List Incident)
    (call : Incident) (stop : Frequency) : Prop where
  split : incidents = before ++ call :: later
  cut : model.CutShort (model.driver.serveAll start before).2 call stop
  words : (model.driver.serveAll start incidents).2.clockValues =
    (model.driver.serve (model.driver.serveAll start before).2 call).2.clockValues
  ramp : (model.driver.serveAll start incidents).2.ramp =
    (model.driver.serve (model.driver.serveAll start before).2 call).2.ramp

section

variable {model : Model} {w w' : World} {c : Course}

theorem getLast?_stopWords {f : Frequency} {word : UInt32} (h : model.stopWord? f = some word) :
    (model.stopWords f).getLast? = some word := by
  rw [stopWords, h]
  cases model <;> rfl

theorem not_inStep {word : UInt32} (hlast : w.clockValues.getLast? = some word)
    (hne : model.stopWord? w.ramp.current ≠ some word) : ¬ model.InStep w := by
  rw [InStep, hlast]
  exact hne

theorem Steered.applied_eq_nil (h : model.Steered w w' c)
    (hshort : (c.words model).length < model.clockCopies) : c.applied = [] := by
  obtain ⟨applied, torn⟩ := c
  cases applied with
  | nil => rfl
  | cons first rest =>
      obtain ⟨word, hword⟩ := Option.isSome_iff_exists.1 (h.sound.known first List.mem_cons_self)
      have hlength : (model.stopWords first).length = model.clockCopies := by
        simp [stopWords, hword]
      rw [Course.words, List.flatMap_cons, List.append_assoc, List.length_append, hlength] at hshort
      omega

/-- Whoever applies a stop and leaves none half written ends in step. -/
theorem Steered.inStep (h : model.Steered w w' c) (hwhole : c.torn = none) (hne : c.applied ≠ []) :
    model.InStep w' := by
  obtain ⟨before, last, happlied⟩ := (List.eq_nil_or_concat' c.applied).resolve_left hne
  have hmem : last ∈ c.stops := by simp [Course.stops, happlied]
  obtain ⟨word, hword⟩ := Option.isSome_iff_exists.1 (h.sound.known last hmem)
  have hlast : w'.clockValues.getLast? = some word := by
    rw [h.words, Course.words, hwhole, happlied]
    simp [List.getLast?_append, getLast?_stopWords hword]
  have hcurrent : w'.ramp.current = last := by
    rw [h.ramp, happlied, Ramp.getLastD_append]
    rfl
  rw [InStep, hlast, hcurrent]
  exact hword

theorem Steered.unchanged (h : model.Steered w w' c) (hwhole : c.torn = none)
    (hnone : c.applied = []) : w'.clockValues = w.clockValues ∧ w'.ramp = w.ramp := by
  constructor
  · rw [h.words, Course.words, hwhole, hnone]
    exact List.append_nil _
  · rw [h.ramp, hnone]
    rfl

theorem InStep.of_unchanged (h : model.InStep w)
    (hsame : w'.clockValues = w.clockValues ∧ w'.ramp = w.ramp) : model.InStep w' := by
  rw [InStep, hsame.1, hsame.2]
  exact h

theorem Steered.torn (h : model.Steered w w' c) {stop : Frequency} (htorn : c.torn = some stop) :
    Ramp.Hop w.ramp.step.hz w'.ramp.current stop ∧
      ∃ word, w'.clockValues.getLast? = some word ∧ model.stopWord? stop = some word := by
  have hmem : stop ∈ c.stops := by simp [Course.stops, htorn]
  obtain ⟨word, hword⟩ := Option.isSome_iff_exists.1 (h.sound.known stop hmem)
  constructor
  · have hhops := h.hops
    rw [Course.stops, htorn, ← List.cons_append] at hhops
    refine (List.isChain_append.1 hhops).2.2 _ ?_ stop rfl
    rw [h.ramp, List.getLastD_eq_getLast?]
    exact List.getLast?_cons
  · refine ⟨word, ?_, hword⟩
    rw [h.words, Course.words, htorn]
    simp [List.getLast?_append, hword]

end

/-! ## Histories -/

variable (model : Model)

theorem step_serveAll {w : World} (hstep : 0 < w.ramp.step.hz) (incidents : List Incident) :
    (model.driver.serveAll w incidents).2.ramp.step = w.ramp.step := by
  induction incidents generalizing w with
  | nil => rfl
  | cons incident rest ih =>
      obtain ⟨c, hsteered, -⟩ := model.serve_steers hstep incident
      rw [serveAll_cons, ih (by rwa [hsteered.step]), hsteered.step]

/-- Whatever orders are given, and however the link behaves: the ramp is in step with the chips,
unless a call was cut short between the two writes of a stop and the clock has not been written
since. Then the ramp is one hop behind. -/
theorem clock_in_step (w : World) (incidents : List Incident) :
    model.InStep (model.driver.serveAll (model.powered w) incidents).2 ∨
      ∃ before call later stop,
        model.LeftBehind (model.powered w) incidents before later call stop := by
  let start := model.powered w
  have hpos : 0 < start.ramp.step.hz := show 0 < Ramp.boot.step.hz by decide
  induction incidents using List.reverseRecOn with
  | nil => exact .inl rfl
  | append_singleton incidents incident ih =>
      let between := (model.driver.serveAll start incidents).2
      have hlast : (model.driver.serveAll start (incidents ++ [incident])).2 =
          (model.driver.serve between incident).2 := by
        rw [serveAll_append]
        rfl
      have hstep : 0 < between.ramp.step.hz := by
        rw [step_serveAll model hpos]
        exact hpos
      obtain ⟨c, hsteered, hfailed⟩ := model.serve_steers hstep incident
      cases htorn : c.torn with
      | some stop =>
          have hsome : c.torn.isSome := by rw [htorn]; rfl
          obtain ⟨hhop, hwritten⟩ := hsteered.torn htorn
          refine .inr ⟨incidents, incident, [], stop, rfl, ?_, ?_, ?_⟩
          · exact ⟨hsteered.sound.whole hsome, hfailed hsome, hhop, hwritten⟩
          · rw [hlast]
          · rw [hlast]
      | none =>
          by_cases hnone : c.applied = []
          case neg =>
            left
            rw [hlast]
            exact hsteered.inStep htorn hnone
          case pos =>
            have hsame := hsteered.unchanged htorn hnone
            rw [← hlast] at hsame
            rcases ih with hin | ⟨before, call, later, stop, hleft⟩
            · exact .inl (hin.of_unchanged hsame)
            · refine .inr ⟨before, call, later ++ [incident], stop, ?_, hleft.cut,
                hsame.1.trans hleft.words, hsame.2.trans hleft.ramp⟩
              rw [hleft.split, List.append_assoc, List.cons_append]

/-! ## A ramp left behind -/

def answer1397 : Bytes :=
  [0xaa, 0x55, 0x13, 0x97, 0x18, 0x00, 0x00, 0x00, 0x06]

def oneChip : World :=
  { bm1397.powered (World.fresh .bm1397) with line := { replies := [.bytes answer1397] } }

/-- The world after the link has failed, fourteen sendings into the bring-up of the chip. -/
def cutOff : World :=
  (bm1397.driver.serveAll (bm1397.powered (World.fresh .bm1397))
    [.rearrange [.bytes answer1397] (some (14, .io "write failed")) none none,
      .init ⟨62500000⟩ 1 256]).2

theorem cutOff_eq : cutOff = ((bm1397.driver.init ⟨62500000⟩ 1 256).run
    (oneChip.withFault (some (14, .io "write failed")))).2 := by
  have hfirst : (bm1397.driver.serve (bm1397.powered (World.fresh .bm1397))
      (.rearrange [.bytes answer1397] (some (14, .io "write failed")) none none)).2 =
    oneChip.withFault (some (14, .io "write failed")) := rfl
  have hlast (w : World) : (bm1397.driver.serveAll w [.init ⟨62500000⟩ 1 256]).2 =
    ((bm1397.driver.init ⟨62500000⟩ 1 256).run w).2 := rfl
  rw [cutOff, serveAll_cons, hfirst, hlast]

theorem lookup_boot : Dividers.lookup Ramp.bootFrequency = some ⟨162, 2, 6, 6⟩ :=
  Dividers.lookup_of_best (by decide) (by decide) (by decide +kernel)

/-- What a bring-up sends, as far as the first of the two words for the first stop. -/
def untilFirstWord : List Command :=
  [.readAll Register.chipAddress, .chainInactive, .setAddress 0,
    .writeAll Register.clockOrderControl0 0, .writeAll Register.clockOrderControl1 0,
    .writeAll Register.orderedClockEnable 1, .writeAll Register.coreRegisterControl 0x80008074,
    .writeAll Register.ticketMask (ticketMaskWord 256), .writeAll Register.pll3Parameter 0xc0700111,
    .writeAll Register.fastUartConfiguration 0x0600000f, .writeAll Register.miscControl 0x00007a31,
    .writeAll Register.pll0Divider 0x0f0f0f00, .writeAll Register.pll0Divider 0x0f0f0f00,
    .writeAll Register.pll0Parameter (bm1397.clockWord ⟨175, 2, 7, 5⟩)]

theorem frames_cutOff : cutOff.frames = untilFirstWord.map Command.frame := by
  have hanswered : 0 < Bus.identities bm1397.family oneChip.line.replies := by decide +kernel
  have hstops : oneChip.ramp.plan ⟨62500000⟩ = [⟨62500000⟩] := by decide +kernel
  obtain ⟨rest, hemits⟩ := bm1397.init_emits ⟨62500000⟩ 1 256 oneChip.stand hanswered
  obtain ⟨after, hrun, -, -, hframes⟩ := hemits oneChip rfl rfl
  obtain ⟨sent, hunharmed, hfaulty, -⟩ :=
    (bm1397.upkeep_stops (bm1397.init_upkeep ⟨62500000⟩ 1 256)).run_withFault oneChip 14
      (.io "write failed")
  have hsame : oneChip.withFault none = oneChip := rfl
  rw [hsame, hrun] at hunharmed
  have hsent := List.append_cancel_left (hunharmed.symm.trans hframes)
  have hstand : oneChip.stand.ramp = oneChip.ramp := rfl
  have hsettings : Ramp.settings [⟨62500000⟩] = [⟨175, 2, 7, 5⟩] :=
    Ramp.settings_cons_of_some [] Dividers.lookup_firstStop
  rw [cutOff_eq, hfaulty, hsent, hstand, hstops,
    AddressPlan.evenlySpaced_eq_ok (by decide) (by decide), ← List.map_take]
  simp only [Script.sent, Script.tuning, hsettings]
  rfl

theorem clockValues_cutOff : cutOff.clockValues = [bm1397.clockWord ⟨175, 2, 7, 5⟩] := by
  have hfits : ∀ c ∈ untilFirstWord, c.Fits := by
    simp [untilFirstWord, Command.Fits, Command.readAll, Command.writeAll]
  rw [World.clockValues, frames_cutOff, filterMap_clockValue? hfits]
  rfl

theorem current_cutOff : cutOff.ramp.current = Ramp.bootFrequency := by
  let start := oneChip.withFault (some (14, .io "write failed"))
  have hpos : 0 < start.ramp.step.hz := show 0 < Ramp.boot.step.hz by decide
  obtain ⟨c, hsteered, -⟩ :=
    bm1397.upkeep_steers (bm1397.init_upkeep ⟨62500000⟩ 1 256) start hpos
  rw [← cutOff_eq] at hsteered
  have hwords : cutOff.clockValues = c.words bm1397 := hsteered.words
  have hshort : (c.words bm1397).length < bm1397.clockCopies := by
    rw [← hwords, clockValues_cutOff]
    decide
  rw [hsteered.ramp, hsteered.applied_eq_nil hshort]
  rfl

/-- The chips have been told of the first stop, and the ramp stands where they booted. -/
theorem ramp_left_behind :
    cutOff.clockValues = [bm1397.clockWord ⟨175, 2, 7, 5⟩] ∧
      cutOff.ramp.current = Ramp.bootFrequency ∧ ¬ bm1397.InStep cutOff := by
  have hlast : cutOff.clockValues.getLast? = some (bm1397.clockWord ⟨175, 2, 7, 5⟩) := by
    rw [clockValues_cutOff]
    rfl
  refine ⟨clockValues_cutOff, current_cutOff, not_inStep hlast ?_⟩
  rw [current_cutOff, stopWord?, lookup_boot]
  decide

end Model

end ChipChain
