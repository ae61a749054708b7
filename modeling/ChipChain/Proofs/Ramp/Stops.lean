import ChipChain.Proofs.Ramp.Plan
import Mathlib.Data.List.Sort

/-!
# The stops of a plan

Which stops a plan makes, and in which order: all multiples of the step strictly between
the two ends, in the direction of travel, and then the target (`plan_exact`). A walk is
determined by being strictly monotone and by the frequencies at which it stops, so the
way back makes the same stops in the opposite order.
-/

namespace ChipChain.Ramp

variable {step target hz : Nat} {f : Frequency}

/-! ## Ascending stops -/

/-- Every stop is faster than those before it. -/
def Ascending (stops : List Frequency) : Prop :=
  stops.Pairwise fun f g => f.hz < g.hz

def Descending (stops : List Frequency) : Prop :=
  stops.Pairwise fun f g => g.hz < f.hz

theorem hz_injective : Function.Injective Frequency.hz := by
  rintro ⟨a⟩ ⟨b⟩ rfl
  rfl

theorem Descending.reverse {stops : List Frequency} (h : Descending stops) :
    Ascending stops.reverse :=
  List.pairwise_reverse.2 h

theorem Ascending.eq_of_mem_iff {stops others : List Frequency} (h : Ascending stops)
    (hothers : Ascending others) (hmem : ∀ f, f ∈ stops ↔ f ∈ others) : stops = others := by
  apply List.map_injective_iff.2 hz_injective
  refine List.Pairwise.eq_of_mem_iff (List.pairwise_map.2 h) (List.pairwise_map.2 hothers) ?_
  intro hz
  simp only [List.mem_map, hmem]

/-- The multiples of `step` strictly between two frequencies, the slowest first. -/
def multiplesBetween (step low high : Nat) : List Frequency :=
  ((List.range high).filter fun hz => low < hz ∧ step ∣ hz).map Frequency.mk

theorem mem_multiplesBetween_iff {low high : Nat} :
    f ∈ multiplesBetween step low high ↔ low < f.hz ∧ f.hz < high ∧ step ∣ f.hz := by
  obtain ⟨hz⟩ := f
  simp [multiplesBetween]
  tauto

theorem multiplesBetween_ascending (step low high : Nat) :
    Ascending (multiplesBetween step low high) :=
  List.pairwise_map.2 (List.pairwise_lt_range.filter _)

/-! ## Which stops a walk makes -/

theorem multipleAbove_le_of_dvd {m : Nat} (hdvd : step ∣ m) (hlt : hz < m) :
    multipleAbove step hz ≤ m := by
  obtain ⟨k, rfl⟩ := hdvd
  have hquotient : hz / step < k := Nat.div_lt_of_lt_mul hlt
  rw [multipleAbove, Nat.mul_comm]
  exact Nat.mul_le_mul_left step hquotient

theorem le_multipleBelow_of_dvd {m : Nat} (hpos : 0 < step) (hdvd : step ∣ m) (hlt : m < hz) :
    m ≤ multipleBelow step hz := by
  obtain ⟨k, rfl⟩ := hdvd
  have hquotient : k ≤ (hz - 1) / step := by
    rw [Nat.le_div_iff_mul_le hpos, Nat.mul_comm]
    omega
  rw [multipleBelow, Nat.mul_comm]
  exact Nat.mul_le_mul_right step hquotient

theorem mem_climb_iff (hpos : 0 < step) :
    f ∈ climb step target hz ↔ hz < f.hz ∧ f.hz ≤ target ∧ (step ∣ f.hz ∨ f.hz = target) := by
  constructor
  · intro h
    have hkind := dvd_or_eq_of_mem_climb h
    fun_induction climb step target hz with
    | case1 hz hlt stop ih =>
        have hup := lt_multipleAbove hlt.1 hz
        rcases List.mem_cons.1 h with rfl | h
        · exact ⟨by simp only [stop]; omega, Nat.min_le_right _ _, hkind⟩
        · obtain ⟨hlow, hrest⟩ := ih h
          exact ⟨by simp only [stop] at hlow; omega, hrest⟩
    | case2 => exact absurd h List.not_mem_nil
  · -- What the walk has to meet is its next stop or lies beyond it.
    rintro ⟨hlow, hhigh, hkind⟩
    fun_induction climb step target hz with
    | case1 hz hlt stop ih =>
        have hreach : stop ≤ f.hz := by
          rcases hkind with hdvd | heq
          · exact (Nat.min_le_left _ _).trans (multipleAbove_le_of_dvd hdvd hlow)
          · exact heq ▸ Nat.min_le_right _ _
        rcases Nat.eq_or_lt_of_le hreach with heq | hlt
        · exact List.mem_cons.2 (.inl (hz_injective heq.symm))
        · exact List.mem_cons_of_mem _ (ih hlt)
    | case2 hz hge => exact absurd ⟨hpos, by omega⟩ hge

theorem mem_descend_iff (hpos : 0 < step) :
    f ∈ descend step target hz ↔ target ≤ f.hz ∧ f.hz < hz ∧ (step ∣ f.hz ∨ f.hz = target) := by
  constructor
  · intro h
    have hkind := dvd_or_eq_of_mem_descend h
    fun_induction descend step target hz with
    | case1 hz hlt stop ih =>
        have hdown := multipleBelow_lt step (show 0 < hz by omega)
        rcases List.mem_cons.1 h with rfl | h
        · exact ⟨Nat.le_max_right _ _, by simp only [stop]; omega, hkind⟩
        · obtain ⟨hlow, hhigh, -⟩ := ih h
          exact ⟨hlow, by simp only [stop] at hhigh; omega, hkind⟩
    | case2 => exact absurd h List.not_mem_nil
  · rintro ⟨hlow, hhigh, hkind⟩
    fun_induction descend step target hz with
    | case1 hz hlt stop ih =>
        have hreach : f.hz ≤ stop := by
          rcases hkind with hdvd | heq
          · exact (le_multipleBelow_of_dvd hpos hdvd hhigh).trans (Nat.le_max_left _ _)
          · exact heq ▸ Nat.le_max_right _ _
        rcases Nat.eq_or_lt_of_le hreach with heq | hlt
        · exact List.mem_cons.2 (.inl (hz_injective heq))
        · exact List.mem_cons_of_mem _ (ih hlt)
    | case2 hz hge => omega

theorem climb_ascending (hpos : 0 < step) : Ascending (⟨hz⟩ :: climb step target hz) := by
  refine List.pairwise_cons.2 ⟨fun f hf => ((mem_climb_iff hpos).1 hf).1, ?_⟩
  fun_induction climb step target hz with
  | case1 hz hlt stop ih =>
      exact List.pairwise_cons.2 ⟨fun f hf => ((mem_climb_iff hpos).1 hf).1, ih⟩
  | case2 => exact List.Pairwise.nil

theorem descend_descending (hpos : 0 < step) : Descending (⟨hz⟩ :: descend step target hz) := by
  refine List.pairwise_cons.2 ⟨fun f hf => ((mem_descend_iff hpos).1 hf).2.1, ?_⟩
  fun_induction descend step target hz with
  | case1 hz hlt stop ih =>
      exact List.pairwise_cons.2 ⟨fun f hf => ((mem_descend_iff hpos).1 hf).2.1, ih⟩
  | case2 => exact List.Pairwise.nil

/-- On the way up: all multiples in between, then the target. -/
theorem climb_eq (hpos : 0 < step) (h : hz < target) :
    climb step target hz = multiplesBetween step hz target ++ [⟨target⟩] := by
  -- Both sides ascend, so it is enough that they have the same members.
  refine Ascending.eq_of_mem_iff (climb_ascending hpos).of_cons ?_ fun f => ?_
  · refine List.pairwise_append.2 ⟨multiplesBetween_ascending step hz target,
      List.pairwise_singleton _ _, fun f hf g hg => ?_⟩
    rw [List.mem_singleton.1 hg]
    exact (mem_multiplesBetween_iff.1 hf).2.1
  · obtain ⟨k⟩ := f
    rw [mem_climb_iff hpos, List.mem_append, mem_multiplesBetween_iff, List.mem_singleton,
      Frequency.mk.injEq]
    dsimp only
    by_cases hdvd : step ∣ k
    · simp only [hdvd, true_or, and_true]
      omega
    · simp only [hdvd, false_or, and_false]
      omega

/-- On the way down: all multiples in between in the opposite order, then the target. -/
theorem descend_eq (hpos : 0 < step) (h : target < hz) :
    descend step target hz = (multiplesBetween step target hz).reverse ++ [⟨target⟩] := by
  -- Turned round, the walk down ascends, and the same argument applies.
  have hreversed : (descend step target hz).reverse =
      ⟨target⟩ :: multiplesBetween step target hz := by
    have hreverse : Ascending (descend step target hz).reverse :=
      Descending.reverse (descend_descending hpos).of_cons
    refine Ascending.eq_of_mem_iff hreverse ?_ fun f => ?_
    · exact List.pairwise_cons.2 ⟨fun f hf => (mem_multiplesBetween_iff.1 hf).1,
        multiplesBetween_ascending step target hz⟩
    · obtain ⟨k⟩ := f
      rw [List.mem_reverse, mem_descend_iff hpos, List.mem_cons, mem_multiplesBetween_iff,
        Frequency.mk.injEq]
      dsimp only
      by_cases hdvd : step ∣ k
      · simp only [hdvd, true_or, and_true]
        omega
      · simp only [hdvd, false_or, and_false, or_false]
        omega
  rw [← List.reverse_reverse (descend step target hz), hreversed, List.reverse_cons]

/-! ## The plan -/

/-- The multiples of `step` strictly between two frequencies, in the direction of travel. -/
def multiplesOnWay (step start finish : Nat) : List Frequency :=
  if start < finish then multiplesBetween step start finish
  else (multiplesBetween step finish start).reverse

theorem multiplesOnWay_reverse {start finish : Nat} (h : start ≠ finish) :
    multiplesOnWay step finish start = (multiplesOnWay step start finish).reverse := by
  rcases Nat.lt_or_gt_of_ne h with hlt | hlt
  · rw [multiplesOnWay, multiplesOnWay, if_neg hlt.not_gt, if_pos hlt]
  · rw [multiplesOnWay, multiplesOnWay, if_pos hlt, if_neg hlt.not_gt, List.reverse_reverse]

theorem plan_eq (ramp : Ramp) (target : Frequency) (hpos : 0 < ramp.step.hz) :
    ramp.plan target =
      if (ramp.current.absDiff target).hz ≤ 1000 then []
      else if (ramp.current.hz + ramp.step.hz / 2) / ramp.step.hz =
          (target.hz + ramp.step.hz / 2) / ramp.step.hz then [target]
      else multiplesOnWay ramp.step.hz ramp.current.hz target.hz ++ [target] := by
  by_cases hnear : (ramp.current.absDiff target).hz ≤ 1000
  · rw [if_pos hnear]
    exact plan_eq_nil_iff.2 hnear
  have hfar : ¬ (ramp.current.absDiff target).hz ≤ tolerance.hz := hnear
  rw [plan, if_neg hnear, if_neg hfar]
  by_cases hsame : (ramp.current.hz + ramp.step.hz / 2) / ramp.step.hz =
      (target.hz + ramp.step.hz / 2) / ramp.step.hz
  · rw [if_pos hsame]
    exact if_pos (.inr hsame)
  have hwalk : ¬ (ramp.step.hz = 0 ∨ nearestMultiple ramp.step.hz ramp.current.hz =
      nearestMultiple ramp.step.hz target.hz) := not_or.2 ⟨hpos.ne', hsame⟩
  rw [if_neg hsame, if_neg hwalk, multiplesOnWay]
  by_cases hlt : ramp.current.hz < target.hz
  · rw [if_pos hlt, if_pos hlt, climb_eq hpos hlt]
  · have hgt : target.hz < ramp.current.hz := by
      simp only [Frequency.absDiff] at hnear
      omega
    rw [if_neg hlt, if_neg hlt, descend_eq hpos hgt]

theorem plan_ascending (ramp : Ramp) {target : Frequency} (hpos : 0 < ramp.step.hz)
    (h : ramp.current.hz < target.hz) : Ascending (ramp.current :: ramp.plan target) := by
  unfold plan
  dsimp only
  split
  case isTrue => exact List.pairwise_singleton _ _
  case isFalse =>
  split
  case isTrue => exact List.pairwise_pair.2 h
  case isFalse => exact climb_ascending hpos

theorem plan_descending (ramp : Ramp) {target : Frequency} (hpos : 0 < ramp.step.hz)
    (h : target.hz < ramp.current.hz) : Descending (ramp.current :: ramp.plan target) := by
  unfold plan
  dsimp only
  split
  case isTrue => exact List.pairwise_singleton _ _
  case isFalse =>
  split
  case isTrue => exact List.pairwise_pair.2 h
  case isFalse =>
    rw [if_neg h.not_gt]
    exact descend_descending hpos

theorem absDiff_comm (f g : Frequency) : f.absDiff g = g.absDiff f := by
  simp only [Frequency.absDiff, Frequency.mk.injEq]
  omega

theorem dropLast_plan_reverse (a b step : Frequency) (settle : Nat) (hpos : 0 < step.hz) :
    (plan ⟨b, step, settle⟩ a).dropLast = (plan ⟨a, step, settle⟩ b).dropLast.reverse := by
  rw [plan_eq _ _ hpos, plan_eq _ _ hpos, absDiff_comm b a]
  split
  case isTrue => rfl
  case isFalse hfar =>
  simp only [eq_comm (a := (b.hz + step.hz / 2) / step.hz)]
  split
  case isTrue => rfl
  case isFalse hdiffer =>
    rw [List.dropLast_concat, List.dropLast_concat]
    refine multiplesOnWay_reverse fun heq => ?_
    rw [heq] at hdiffer
    exact hdiffer rfl

/-- The plan from one frequency to another: nothing if they are within a kilohertz; the target
alone if both are nearest to one multiple of the step; else every multiple strictly between them,
in the direction of travel, and the target. So it is strictly monotone from where it starts, no
hop is longer than the step, and the way back makes the same intermediate stops in the opposite
order. -/
theorem plan_exact (a b step : Frequency) (settle : Nat) (hpos : 0 < step.hz) :
    plan ⟨a, step, settle⟩ b =
      (if (a.absDiff b).hz ≤ 1000 then []
        else if (a.hz + step.hz / 2) / step.hz = (b.hz + step.hz / 2) / step.hz then [b]
        else multiplesOnWay step.hz a.hz b.hz ++ [b]) ∧
    (a.hz < b.hz → Ascending (a :: plan ⟨a, step, settle⟩ b)) ∧
    (b.hz < a.hz → Descending (a :: plan ⟨a, step, settle⟩ b)) ∧
    List.IsChain (Hop step.hz) (a :: plan ⟨a, step, settle⟩ b) ∧
    (plan ⟨b, step, settle⟩ a).dropLast = (plan ⟨a, step, settle⟩ b).dropLast.reverse :=
  ⟨plan_eq ⟨a, step, settle⟩ b hpos, plan_ascending ⟨a, step, settle⟩ hpos,
    plan_descending ⟨a, step, settle⟩ hpos, plan_hops ⟨a, step, settle⟩ b hpos,
    dropLast_plan_reverse a b step settle hpos⟩

/-- From 57 MHz to 70 MHz there are two multiples of the usual step, from 70 MHz to 57 MHz the same
two. -/
theorem plan_exact_of_unaligned :
    0 < defaultStep.hz ∧
      plan (startingAt (.ofKhz 57000)) (.ofKhz 70000) =
        [.ofKhz 62500, .ofKhz 68750, .ofKhz 70000] ∧
      Ascending (.ofKhz 57000 :: plan (startingAt (.ofKhz 57000)) (.ofKhz 70000)) ∧
      (plan (startingAt (.ofKhz 70000)) (.ofKhz 57000)).dropLast =
        [.ofKhz 68750, .ofKhz 62500] := by
  have hpos : 0 < defaultStep.hz := by decide
  have hplan : plan (startingAt (.ofKhz 57000)) (.ofKhz 70000) =
      [.ofKhz 62500, .ofKhz 68750, .ofKhz 70000] := by
    decide +kernel
  obtain ⟨-, hup, -, -, hback⟩ :=
    plan_exact (.ofKhz 57000) (.ofKhz 70000) defaultStep defaultSettle hpos
  refine ⟨hpos, hplan, hup (by decide), hback.trans ?_⟩
  rw [show plan ⟨.ofKhz 57000, defaultStep, defaultSettle⟩ (.ofKhz 70000) = _ from hplan]
  rfl

end ChipChain.Ramp
