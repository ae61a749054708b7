import ChipChain.Proofs.Chain.ClockJumps
import ChipChain.Proofs.Ramp.Stops
import Mathlib.Data.List.TakeWhile

/-!
# Changing the clock of chips that roll versions

No stop lies outside of the two ends of a plan, and the ramp of a driver never stands below the
table, whatever has happened before. So a change of the clock fails exactly where it descends
below the table, and on the way there it writes the setting of every stop. The main statement is
`setFrequency_retunes`.
-/

namespace ChipChain

open Routine Driver

/-! ## Stops below the table -/

namespace Ramp

open Dividers

theorem reachable_eq (stops : List Frequency) :
    reachable stops = stops.takeWhile fun stop => lowest.hz ≤ stop.hz := by
  simp only [reachable, isSome_lookup]

theorem barrier?_eq (stops : List Frequency) :
    barrier? stops = stops.find? fun stop => stop.hz < lowest.hz := by
  simp only [barrier?, isNone_lookup]

theorem isSome_lookup_of_mem_reachable {stops : List Frequency} {stop : Frequency}
    (h : stop ∈ reachable stops) : (lookup stop).isSome :=
  List.mem_takeWhile_imp (p := fun stop => (lookup stop).isSome) h

theorem map_lookup_reachable (stops : List Frequency) :
    (reachable stops).map lookup = (settings stops).map some := by
  rw [settings, List.map_filterMap_some_eq_filter_map_isSome]
  symm
  rw [List.filter_eq_self]
  intro found hfound
  obtain ⟨stop, hstop, rfl⟩ := List.mem_map.1 hfound
  exact isSome_lookup_of_mem_reachable hstop

theorem legal_of_mem_settings {stops : List Frequency} {d : Dividers} (h : d ∈ settings stops) :
    d.Legal := by
  obtain ⟨stop, -, hstop⟩ := List.mem_filterMap.1 h
  exact (lookup_eq_some_iff.1 hstop).1

theorem outcomeOf_eq_ok_iff {stops : List Frequency} :
    outcomeOf stops = .ok () ↔ barrier? stops = none := by
  rw [outcomeOf]
  cases barrier? stops <;> simp

theorem outcomeOf_eq_error {stops : List Frequency} (h : outcomeOf stops ≠ .ok ()) :
    ∃ stop, barrier? stops = some stop ∧ outcomeOf stops = .error (.noDividers stop) := by
  obtain ⟨stop, hstop⟩ := Option.ne_none_iff_exists'.1 (mt outcomeOf_eq_ok_iff.2 h)
  exact ⟨stop, hstop, by rw [outcomeOf, hstop, Option.elim_some]⟩

theorem min_le_of_mem_plan {ramp : Ramp} {target stop : Frequency} (hpos : 0 < ramp.step.hz)
    (h : stop ∈ ramp.plan target) : min ramp.current.hz target.hz ≤ stop.hz := by
  unfold plan at h
  dsimp only at h
  split at h
  case isTrue => exact absurd h List.not_mem_nil
  case isFalse =>
  split at h
  case isTrue =>
    rw [List.mem_singleton.1 h]
    exact Nat.min_le_right _ _
  case isFalse =>
  split at h
  case isTrue =>
    have hlow := ((mem_climb_iff hpos).1 h).1
    omega
  case isFalse =>
    have hlow := ((mem_descend_iff hpos).1 h).1
    omega

/-- From a place in the table, a plan leaves it exactly if it goes to a target below. -/
theorem barrier?_plan_eq_none_iff {ramp : Ramp} {target : Frequency} (hpos : 0 < ramp.step.hz)
    (hcurrent : lowest.hz ≤ ramp.current.hz) :
    barrier? (ramp.plan target) = none ↔
      lowest.hz ≤ target.hz ∨ (ramp.current.absDiff target).hz ≤ tolerance.hz := by
  rw [barrier?_eq, List.find?_eq_none]
  constructor
  · intro hnone
    refine or_iff_not_imp_right.2 fun hfar => ?_
    have hlast := List.mem_of_getLast? (getLast?_plan hfar)
    simpa using hnone target hlast
  · rintro (hle | hnear) stop hstop
    · have hmin := min_le_of_mem_plan hpos hstop
      simp only [decide_eq_true_iff]
      omega
    · rw [plan_eq_nil_iff.2 hnear] at hstop
      cases hstop

theorem lowest_le_movedAlong {ramp : Ramp} (hcurrent : lowest.hz ≤ ramp.current.hz)
    (stops : List Frequency) : lowest.hz ≤ (ramp.movedAlong stops).current.hz := by
  rcases List.mem_cons.1 (List.getLastD_mem_cons (l := reachable stops)) with heq | hmem
  · rw [movedAlong, heq]
    exact hcurrent
  · exact isSome_lookup_iff_lowest_le.1 (isSome_lookup_of_mem_reachable hmem)

end Ramp

/-! ## Words -/

namespace Rolling

open Dividers

theorem highRange_iff {d : Dividers} (h : d.Legal) :
    highRangeMhz * d.reference ≤ crystalMhz * d.feedback ↔ 2400 ≤ d.oscillator := by
  have hreference : (0 : ℚ) < d.reference := by
    rw [h.reference_eq]
    norm_num
  rw [oscillator, le_div_iff₀ hreference, highRangeMhz]
  norm_cast

/-- The bytes of a word: the range, high from an oscillator of 2400 MHz on, the two dividers before
the oscillator, and in two nibbles those after it, each less one. -/
theorem bytes_clockWord {d : Dividers} (h : d.Legal) :
    (Bytes.ofUInt32BE (clockWord d)).map UInt8.toNat =
      [if 2400 ≤ d.oscillator then 0x50 else 0x40, d.feedback, d.reference,
        16 * (d.post1 - 1) + (d.post2 - 1)] := by
  have hrange : (if highRangeMhz * d.reference ≤ crystalMhz * d.feedback then (0x50 : UInt8)
      else 0x40).toNat = if 2400 ≤ d.oscillator then 0x50 else 0x40 := by
    simp only [highRange_iff h]
    split <;> rfl
  rw [clockWord, Bytes.ofUInt32BE_toUInt32BE]
  simp only [List.map_cons, List.map_nil, hrange, toNat_feedback h, toNat_reference h,
    toNat_post h]

end Rolling

/-! ## A change of the clock -/

namespace Model

open Dividers Ramp

variable {model : Model}

/-- From a world on, a change of the clock to this target has come to an outcome and another world,
and these settings have been written on the way. -/
structure Retuned (w : World) (target : Frequency) (outcome : Except ChainError Unit)
    (settings : List Dividers) (after : World) : Prop where
  /-- Each stop of the plan before the first below the table has its setting. -/
  found : ((w.ramp.plan target).takeWhile fun stop => lowest.hz ≤ stop.hz).map lookup =
    settings.map some
  /-- One broadcast for each setting, and nothing else. -/
  sent : after.frames = w.frames ++ settings.map fun d =>
    (Command.writeAll Register.pll0Parameter (Rolling.clockWord d)).frame
  packed : ∀ d ∈ settings, (Bytes.ofUInt32BE (Rolling.clockWord d)).map UInt8.toNat =
    [if 2400 ≤ d.oscillator then 0x50 else 0x40, d.feedback, d.reference,
      16 * (d.post1 - 1) + (d.post2 - 1)]
  readBack : ∀ d ∈ settings, Rolling.dividersOf (Rolling.clockWord d) = d
  succeeds : outcome = .ok () ↔
    lowest.hz ≤ target.hz ∨ (w.ramp.current.absDiff target).hz ≤ 1000
  fails : outcome ≠ .ok () → ∃ stop,
    (w.ramp.plan target).find? (fun stop => stop.hz < lowest.hz) = some stop ∧
      outcome = .error (.noDividers stop)
  /-- The ramp stands at the last stop that was written, or where it was. -/
  ramp : after.ramp = { w.ramp with
    current := ((w.ramp.plan target).takeWhile fun stop => lowest.hz ≤ stop.hz).getLastD
      w.ramp.current }
  floor : lowest.hz ≤ after.ramp.current.hz

/-- Where sendings succeed, and the ramp stands in the table. -/
theorem setFrequency_retuned (hmodel : model ≠ .bm1397) {w : World}
    (hsends : w.line.sendFault = none) (hpos : 0 < w.ramp.step.hz)
    (hcurrent : lowest.hz ≤ w.ramp.current.hz) (target : Frequency) :
    ∃ outcome after settings, (model.driver.setFrequency target).run w = (outcome, after) ∧
      Retuned w target outcome settings after := by
  let stops := w.ramp.plan target
  obtain ⟨after, hrun, -, hstand, hframes⟩ :=
    moveClock_emits (Rolling.setClock_emits hmodel) target w.stand w hsends rfl
  have hramp : after.ramp = w.ramp.movedAlong stops := congrArg Stand.ramp hstand
  rw [List.flatMap_congr fun d _ => clockWrites_of_rolling hmodel d, ← List.map_eq_flatMap,
    List.map_map] at hframes
  rw [setFrequency_of_rolling hmodel]
  refine ⟨outcomeOf stops, after, settings stops, hrun, ?_⟩
  exact {
    found := by rw [← reachable_eq, map_lookup_reachable]
    sent := hframes
    packed := fun d hd => Rolling.bytes_clockWord (legal_of_mem_settings hd)
    readBack := fun d hd => Rolling.dividersOf_clockWord (legal_of_mem_settings hd)
    succeeds := outcomeOf_eq_ok_iff.trans (barrier?_plan_eq_none_iff hpos hcurrent)
    fails := fun hfails => by
      rw [← barrier?_eq]
      exact outcomeOf_eq_error hfails
    ramp := by rw [hramp, movedAlong, reachable_eq]
    floor := hramp ▸ lowest_le_movedAlong hcurrent stops }

theorem lowest_le_serveAll (hmodel : model ≠ .bm1397) (w : World) (incidents : List Incident) :
    let reached := (model.driver.serveAll (model.powered w) incidents).2
    0 < reached.ramp.step.hz ∧ lowest.hz ≤ reached.ramp.current.hz := by
  intro reached
  have hstep : 0 < Ramp.boot.step.hz := by decide
  obtain ⟨c, hsteered, -⟩ := serveAll_steers (w := model.powered w) hmodel hstep incidents
  refine ⟨hsteered.step ▸ hstep, ?_⟩
  have hcurrent : reached.ramp.current = c.applied.getLastD bootFrequency :=
    congrArg Ramp.current hsteered.ramp
  rw [hcurrent]
  rcases List.mem_cons.1 (List.getLastD_mem_cons (l := c.applied)) with heq | hmem
  · rw [heq]
    decide
  · have hknown := hsteered.sound.known _ (List.mem_append_left _ hmem)
    rwa [stopWord?, Option.isSome_map, isSome_lookup_iff_lowest_le] at hknown

/-- Whatever a driver of chips that roll versions has been through, where sendings succeed a change
of the clock writes the settings of the planned stops, one by one, up to the first stop below the
table. It succeeds exactly if the target is in the table or already reached; otherwise it tells
of that stop, and the clock stays at the last one that was written. -/
theorem setFrequency_retunes (hmodel : model ≠ .bm1397) (w : World) (incidents : List Incident)
    (target : Frequency) :
    IsLeast {hz | ∃ d ∈ table, d.frequency.hz = hz} lowest.hz ∧
    let reached := (model.driver.serveAll (model.powered w) incidents).2
    reached.line.sendFault = none →
      ∃ outcome after settings, (model.driver.setFrequency target).run reached = (outcome, after) ∧
        Retuned reached target outcome settings after := by
  obtain ⟨hpos, hcurrent⟩ := lowest_le_serveAll hmodel w incidents
  exact ⟨lowest_isLeast, fun hsends => setFrequency_retuned hmodel hsends hpos hcurrent target⟩

/-- A descent from the frequency of a chip just powered to one below the table. -/
theorem setFrequency_retunes_of_descent :
    let reached := (bm1370.driver.serveAll (bm1370.powered (World.fresh .bm1370))
      [.setDifficulty 512, .sendWork {}]).2
    reached.line.sendFault = none ∧
      ∃ after, ∃ settings : List Dividers,
        (bm1370.driver.setFrequency ⟨30000000⟩).run reached =
          (.error (.noDividers ⟨37500000⟩), after) ∧
        [⟨50000000⟩, ⟨43750000⟩].map lookup = settings.map some ∧
        after.ramp.current = ⟨43750000⟩ := by
  intro reached
  have hmodel : bm1370 ≠ .bm1397 := by decide
  have hsends : reached.line.sendFault = none := rfl
  have hramp : reached.ramp = .boot := rfl
  obtain ⟨-, hretunes⟩ := setFrequency_retunes hmodel (World.fresh .bm1370)
    [.setDifficulty 512, .sendWork {}] ⟨30000000⟩
  obtain ⟨outcome, after, settings, hrun, hretuned⟩ := hretunes hsends
  have hplan : reached.ramp.plan ⟨30000000⟩ =
      [⟨50000000⟩, ⟨43750000⟩, ⟨37500000⟩, ⟨31250000⟩, ⟨30000000⟩] := by
    rw [hramp]
    decide +kernel
  have hfails : outcome ≠ .ok () := by
    rw [ne_eq, hretuned.succeeds, hramp]
    decide
  obtain ⟨stop, hstop, houtcome⟩ := hretuned.fails hfails
  have hfound := hretuned.found
  have hmoved := congrArg Ramp.current hretuned.ramp
  rw [hplan] at hstop hfound hmoved
  obtain rfl : (⟨37500000⟩ : Frequency) = stop := Option.some.inj hstop
  exact ⟨hsends, after, settings, houtcome ▸ hrun, hfound, hmoved⟩

end Model

end ChipChain
