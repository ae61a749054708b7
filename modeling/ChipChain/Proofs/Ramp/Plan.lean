import ChipChain.Ramp.Plan
import Mathlib.Data.List.Chain

/-!
# Planned stops

A plan takes the clock to its target in hops of at most one step, over multiples
of the step. The two walks, up and down, are followed by induction on their
recursion; the shortcut to a target near the same multiple is one short hop.
-/

namespace ChipChain.Ramp

variable {step target hz : Nat}

/-- Two frequencies lie at most one step apart. -/
def Hop (step : Nat) (f g : Frequency) : Prop :=
  (f.absDiff g).hz ≤ step

theorem hop_iff {step : Nat} {f g : Frequency} :
    Hop step f g ↔ f.hz ≤ g.hz + step ∧ g.hz ≤ f.hz + step := by
  simp only [Hop, Frequency.absDiff]
  omega

/-! ## Up and down -/

theorem multipleAbove_le (step hz : Nat) : multipleAbove step hz ≤ hz + step := by
  have hmul := Nat.div_mul_le_self hz step
  rw [multipleAbove, Nat.add_mul, Nat.one_mul]
  omega

theorem le_multipleBelow_add (h : 0 < step) (hz : Nat) : hz ≤ multipleBelow step hz + step := by
  have hdiv := Nat.div_add_mod (hz - 1) step
  have hmod := Nat.mod_lt (hz - 1) h
  rw [multipleBelow, Nat.mul_comm]
  omega

theorem climb_hops (h : hz ≤ target) :
    List.IsChain (Hop step) (⟨hz⟩ :: climb step target hz) := by
  fun_induction climb step target hz with
  | case1 hz hlt stop ih =>
      have hup := lt_multipleAbove hlt.1 hz
      have hnear := multipleAbove_le step hz
      refine List.isChain_cons_cons.2 ⟨hop_iff.2 ?_, ih (Nat.min_le_right _ _)⟩
      simp only [stop]
      omega
  | case2 => exact List.isChain_singleton _

theorem descend_hops (hpos : 0 < step) :
    List.IsChain (Hop step) (⟨hz⟩ :: descend step target hz) := by
  fun_induction descend step target hz with
  | case1 hz hlt stop ih =>
      have hdown := multipleBelow_lt step (show 0 < hz by omega)
      have hnear := le_multipleBelow_add hpos hz
      refine List.isChain_cons_cons.2 ⟨hop_iff.2 ?_, ih⟩
      simp only [stop]
      omega
  | case2 => exact List.isChain_singleton _

theorem dvd_or_eq_of_mem_climb {f : Frequency} (h : f ∈ climb step target hz) :
    step ∣ f.hz ∨ f.hz = target := by
  fun_induction climb step target hz with
  | case1 hz hlt stop ih =>
      rcases List.mem_cons.1 h with rfl | h
      · rcases Nat.le_total (multipleAbove step hz) target with hle | hle
        · exact .inl (by simp only [stop, Nat.min_eq_left hle, multipleAbove, Nat.dvd_mul_left])
        · exact .inr (Nat.min_eq_right hle)
      · exact ih h
  | case2 => exact absurd h List.not_mem_nil

theorem dvd_or_eq_of_mem_descend {f : Frequency} (h : f ∈ descend step target hz) :
    step ∣ f.hz ∨ f.hz = target := by
  fun_induction descend step target hz with
  | case1 hz hlt stop ih =>
      rcases List.mem_cons.1 h with rfl | h
      · rcases Nat.le_total target (multipleBelow step hz) with hle | hle
        · exact .inl (by simp only [stop, Nat.max_eq_left hle, multipleBelow, Nat.dvd_mul_left])
        · exact .inr (Nat.max_eq_right hle)
      · exact ih h
  | case2 => exact absurd h List.not_mem_nil

theorem getLast?_climb (hpos : 0 < step) (h : hz < target) :
    (climb step target hz).getLast? = some ⟨target⟩ := by
  fun_induction climb step target hz with
  | case1 hz hlt stop ih =>
      by_cases hstop : stop < target
      · rw [List.getLast?_cons, ih hstop]
        rfl
      · have hend : stop = target := Nat.le_antisymm (Nat.min_le_right _ _) (by omega)
        rw [hend, climb, if_neg (by omega)]
        rfl
  | case2 hz hge => exact absurd ⟨hpos, h⟩ hge

theorem getLast?_descend (h : target < hz) :
    (descend step target hz).getLast? = some ⟨target⟩ := by
  fun_induction descend step target hz with
  | case1 hz hlt stop ih =>
      by_cases hstop : target < stop
      · rw [List.getLast?_cons, ih hstop]
        rfl
      · have hend : stop = target := Nat.le_antisymm (by omega) (Nat.le_max_right _ _)
        rw [hend, descend, if_neg (by omega)]
        rfl
  | case2 hz hge => exact absurd h hge

/-! ## The plan -/

/-- Two frequencies nearest to one multiple are less than a step apart. -/
theorem hop_of_nearestMultiple_eq {f g : Frequency} (hpos : 0 < step)
    (h : nearestMultiple step f.hz = nearestMultiple step g.hz) : Hop step f g := by
  have hf := Nat.div_add_mod (f.hz + step / 2) step
  have hg := Nat.div_add_mod (g.hz + step / 2) step
  have hfm := Nat.mod_lt (f.hz + step / 2) hpos
  have hgm := Nat.mod_lt (g.hz + step / 2) hpos
  simp only [nearestMultiple] at h
  rw [h] at hf
  rw [hop_iff]
  omega

theorem plan_hops (ramp : Ramp) (target : Frequency) (hpos : 0 < ramp.step.hz) :
    List.IsChain (Hop ramp.step.hz) (ramp.current :: ramp.plan target) := by
  unfold plan
  dsimp only
  split
  case isTrue => exact List.isChain_singleton _
  case isFalse =>
  split
  case isTrue hnear =>
    have hsame := hnear.resolve_left (by omega)
    exact List.isChain_pair.2 (hop_of_nearestMultiple_eq hpos hsame)
  case isFalse =>
  split
  case isTrue hlt => exact climb_hops (Nat.le_of_lt hlt)
  case isFalse => exact descend_hops hpos

theorem dvd_or_eq_of_mem_plan {ramp : Ramp} {target f : Frequency} (h : f ∈ ramp.plan target) :
    ramp.step.hz ∣ f.hz ∨ f = target := by
  have hcast : ramp.step.hz ∣ f.hz ∨ f.hz = target.hz := by
    unfold plan at h
    dsimp only at h
    split at h
    case isTrue => exact absurd h List.not_mem_nil
    case isFalse =>
    split at h
    case isTrue => exact .inr (congrArg Frequency.hz (List.mem_singleton.1 h))
    case isFalse =>
    split at h
    case isTrue => exact dvd_or_eq_of_mem_climb h
    case isFalse => exact dvd_or_eq_of_mem_descend h
  exact hcast.imp_right fun e => by cases f; cases target; cases e; rfl

/-- A plan with stops ends at its target. -/
theorem getLast?_plan {ramp : Ramp} {target : Frequency}
    (hfar : ¬ (ramp.current.absDiff target).hz ≤ tolerance.hz) :
    (ramp.plan target).getLast? = some target := by
  unfold plan
  dsimp only
  rw [if_neg hfar]
  split
  case isTrue => rfl
  case isFalse hstep =>
    simp only [Frequency.absDiff] at hfar
    split
    case isTrue hlt => exact getLast?_climb (by omega) hlt
    case isFalse hge => exact getLast?_descend (by omega)

theorem plan_eq_nil_iff {ramp : Ramp} {target : Frequency} :
    ramp.plan target = [] ↔ (ramp.current.absDiff target).hz ≤ tolerance.hz := by
  constructor
  · intro hnil
    refine Decidable.byContradiction fun hfar => ?_
    have hlast := getLast?_plan hfar
    rw [hnil] at hlast
    cases hlast
  · intro hnear
    simp only [plan, if_pos hnear]

end ChipChain.Ramp
