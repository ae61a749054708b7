import ChipChain.Proofs.Work.Ledger
import Mathlib.Data.Finset.Card
import Mathlib.Data.List.Nodup

/-!
# Recurring identifiers

What a new allocator hands out, call by call (`IdAllocator.take_new`), and what any period of
consecutive calls has in it: every multiple of what step and space have in common, once
(`IdAllocator.toFinset_window`).
-/

namespace ChipChain.IdAllocator

/-! ## Call by call -/

theorem take_nth (step : UInt8) (drawn count : Nat) :
    take ⟨nth step drawn, step⟩ count = (List.range' (drawn + 1) count).map (nth step) := by
  induction count generalizing drawn with
  | zero => rfl
  | succ count ih => rw [take, next_nth, ih, List.range'_succ, List.map_cons]

theorem nth_zero (step : UInt8) : nth step 0 = 0 := by
  rw [nth, Nat.zero_mul]
  rfl

theorem take_new (step : UInt8) (count : Nat) :
    take { step } count = (List.range' 1 count).map (nth step) := by
  have htake := take_nth step 0 count
  rwa [nth_zero] at htake

theorem length_take_new (step : UInt8) (count : Nat) : (take { step } count).length = count := by
  rw [take_new, List.length_map, List.length_range']

theorem getElem_take_new (step : UInt8) {count n : Nat} (h : n < (take { step } count).length) :
    (take { step } count)[n] = nth step (n + 1) := by
  simp [take_new, Nat.add_comm]

/-! ## A period of calls -/

/-- The identifiers of a period of draws, from draw number `first` on. -/
def window (step : UInt8) (first : Nat) : List UInt8 :=
  (List.range' first (period step)).map (nth step)

/-- What the step and the space have in common, taken up to a period of times. -/
def multiples (step : UInt8) : Finset UInt8 :=
  (Finset.range (period step)).image fun k => .ofNat (jobIdSpace.gcd step.toNat * k)

theorem gcd_mul_period (step : UInt8) :
    jobIdSpace.gcd step.toNat * period step = jobIdSpace :=
  Nat.mul_div_cancel' (Nat.gcd_dvd_left ..)

theorem mem_multiples_iff {step id : UInt8} :
    id ∈ multiples step ↔ id.toNat < jobIdSpace ∧ jobIdSpace.gcd step.toNat ∣ id.toNat := by
  have hpos : 0 < jobIdSpace.gcd step.toNat := Nat.gcd_pos_of_pos_left _ (by decide)
  rw [multiples, Finset.mem_image]
  constructor
  · rintro ⟨k, hk, rfl⟩
    have hlt : jobIdSpace.gcd step.toNat * k < jobIdSpace := by
      calc
        jobIdSpace.gcd step.toNat * k < jobIdSpace.gcd step.toNat * period step :=
          Nat.mul_lt_mul_of_pos_left (Finset.mem_range.1 hk) hpos
        _ = jobIdSpace := gcd_mul_period step
    have hword : (UInt8.ofNat (jobIdSpace.gcd step.toNat * k)).toNat =
        jobIdSpace.gcd step.toNat * k := by
      rw [← Nat.mod_eq_of_lt hlt, toNat_ofNat_mod]
    rw [hword]
    exact ⟨hlt, Nat.dvd_mul_right ..⟩
  · rintro ⟨hlt, k, hk⟩
    have hless : jobIdSpace.gcd step.toNat * k < jobIdSpace.gcd step.toNat * period step := by
      rwa [gcd_mul_period, ← hk]
    refine ⟨k, Finset.mem_range.2 (Nat.lt_of_mul_lt_mul_left hless), ?_⟩
    rw [← hk, UInt8.ofNat_toNat]

theorem nodup_window (step : UInt8) (first : Nat) : (window step first).Nodup := by
  refine List.Nodup.map_on ?_ List.nodup_range'
  intro m hm n hn heq
  rw [List.mem_range'_1] at hm hn
  rcases Nat.lt_trichotomy m n with hlt | rfl | hlt
  · exact absurd heq.symm (nth_ne_of_lt hlt (by omega))
  · rfl
  · exact absurd heq (nth_ne_of_lt hlt (by omega))

theorem window_subset (step : UInt8) (first : Nat) :
    (window step first).toFinset ⊆ multiples step := by
  intro id hid
  rw [List.mem_toFinset, window, List.mem_map] at hid
  obtain ⟨n, -, rfl⟩ := hid
  exact mem_multiples_iff.2 ⟨nth_lt step n, gcd_dvd_nth step n⟩

/-- A period of draws has no room to leave a multiple out. -/
theorem toFinset_window (step : UInt8) (first : Nat) :
    (window step first).toFinset = multiples step := by
  refine Finset.eq_of_subset_of_card_le (window_subset step first) ?_
  rw [List.toFinset_card_of_nodup (nodup_window step first), window, List.length_map,
    List.length_range']
  exact Finset.card_image_le.trans_eq (Finset.card_range _)

theorem mem_window_iff {step id : UInt8} {first : Nat} :
    id ∈ window step first ↔ id.toNat < jobIdSpace ∧ jobIdSpace.gcd step.toNat ∣ id.toNat := by
  rw [← List.mem_toFinset, toFinset_window, mem_multiples_iff]

theorem take_drop_take_new (step : UInt8) {first count : Nat} (h : first + period step ≤ count) :
    ((take { step } count).drop first).take (period step) = window step (first + 1) := by
  rw [take_new, ← List.map_drop, ← List.map_take, List.drop_range', Nat.mul_one,
    List.take_range'_of_length_ge (by omega), Nat.add_comm, window]

/-- Of a new allocator's calls, however many, each returns the step times its number, reduced to the
space; two return the same identifier exactly if whole periods lie between them; and any period of
consecutive calls returns each multiple of what step and space have in common once. -/
theorem take_recurs (step : UInt8) (count : Nat) :
    (take { step } count).length = count ∧
    (∀ n (h : n < (take { step } count).length),
      (take { step } count)[n].toNat = (n + 1) * step.toNat % jobIdSpace ∧
      (take { step } count)[n].toNat < jobIdSpace) ∧
    (∀ m n (hm : m < (take { step } count).length) (hn : n < (take { step } count).length),
      m < n →
      ((take { step } count)[m] = (take { step } count)[n] ↔ period step ∣ n - m)) ∧
    ∀ first, first + period step ≤ count →
      (((take { step } count).drop first).take (period step)).Nodup ∧
      ∀ id : UInt8, id ∈ ((take { step } count).drop first).take (period step) ↔
        id.toNat < jobIdSpace ∧ jobIdSpace.gcd step.toNat ∣ id.toNat := by
  refine ⟨length_take_new step count, ?_, ?_, ?_⟩
  · intro n h
    rw [getElem_take_new]
    exact ⟨toNat_nth step (n + 1), nth_lt step (n + 1)⟩
  · intro m n hm hn hlt
    rw [getElem_take_new, getElem_take_new, nth_eq_nth_iff, Nat.modEq_iff_dvd' (by omega),
      Nat.add_sub_add_right]
  · intro first h
    rw [take_drop_take_new step h]
    exact ⟨nodup_window step _, fun id => mem_window_iff⟩

/-- In steps of 24 the nineteenth call returns what the third did, and the sixteen calls after the
fifth return sixteen different identifiers, 8 among them. -/
theorem take_recurs_of_wrapping :
    ∃ h : 18 < (take { step := 24 } 40).length,
      (take { step := 24 } 40)[18].toNat = 19 * 24 % jobIdSpace ∧
      (2 < 18 ∧ period 24 ∣ 18 - 2) ∧
      (take { step := 24 } 40)[2] = (take { step := 24 } 40)[18] ∧
      5 + period 24 ≤ 40 ∧
      (((take { step := 24 } 40).drop 5).take (period 24)).Nodup ∧
      (8 : UInt8) ∈ ((take { step := 24 } 40).drop 5).take (period 24) := by
  obtain ⟨hlength, hvalue, hrecurs, hperiod⟩ := take_recurs 24 40
  have hlong : 18 < (take { step := 24 } 40).length := by
    rw [hlength]
    decide
  have hroom : 5 + period 24 ≤ 40 := by decide
  have hbetween : 2 < 18 ∧ period 24 ∣ 18 - 2 := by decide
  obtain ⟨hnodup, hmem⟩ := hperiod 5 hroom
  refine ⟨hlong, (hvalue 18 hlong).1, hbetween, ?_, hroom, hnodup, ?_⟩
  · exact (hrecurs 2 18 (by omega) hlong hbetween.1).2 hbetween.2
  · exact (hmem 8).2 (by decide)

end ChipChain.IdAllocator
