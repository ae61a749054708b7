import ChipChain.Bits
import Mathlib.Logic.Function.Iterate
import Mathlib.Tactic.Ring

/-!
# How a step on masked bits carries

A step adds one at the lowest bit of its mask. Only the lowest run of the mask, the set bits
that stand together there, decides what becomes of it: while the value is not full in that
run, nothing is carried out of it; a full run is cleared, and a carry sets out from the next
but one bit above it and from there takes every other bit, whatever the rest of the mask may
be. Single bits are followed with the ripple of `getLsbD_add_twoPow`, numbers with `field`.
The main statement is `incrementMasked_carries`.
-/

namespace ChipChain

namespace Masked

variable {w : Nat} {value mask : BitVec w} {low top i : Nat}

/-! ## Adding at one bit -/

/-- The bits from `low` up to, but not including, `top` are all set. -/
def Filled (value : BitVec w) (low top : Nat) : Prop :=
  ∀ i, low ≤ i → i < top → value.getLsbD i = true

instance (value : BitVec w) (low top : Nat) : Decidable (Filled value low top) :=
  inferInstanceAs (Decidable (∀ i, low ≤ i → i < top → value.getLsbD i = true))

theorem Filled.mono {low' top' : Nat} (h : Filled value low top) (hlow : low ≤ low')
    (htop : top' ≤ top) : Filled value low' top' :=
  fun i hi hi' => h i (Nat.le_trans hlow hi) (Nat.lt_of_lt_of_le hi' htop)

theorem filled_succ_iff (h : low ≤ top) :
    Filled value low (top + 1) ↔ Filled value low top ∧ value.getLsbD top = true := by
  constructor
  · intro hfilled
    exact ⟨hfilled.mono (Nat.le_refl _) (Nat.le_succ _), hfilled top h (Nat.lt_succ_self _)⟩
  · rintro ⟨hfilled, hlast⟩ i hlow htop
    rcases Nat.lt_succ_iff_lt_or_eq.1 htop with hlt | rfl
    · exact hfilled i hlow hlt
    · exact hlast

theorem carry_twoPow (value : BitVec w) (low : Nat) (hi : i ≤ w) :
    BitVec.carry i value (BitVec.twoPow w low) false =
      decide (low < i ∧ Filled value low i) := by
  induction i with
  | zero => simp
  | succ i ih =>
      rw [BitVec.carry_succ, ih (by omega), BitVec.getLsbD_twoPow, Bool.atLeastTwo]
      rcases Nat.lt_trichotomy low i with h | rfl | h
      · simp [h, h.ne, filled_succ_iff h.le, Nat.lt_succ_of_lt h, Bool.and_comm]
      · have hempty : Filled value low low := fun j hj hj' => absurd hj' (by omega)
        simp [filled_succ_iff, hempty, show low < w by omega]
      · simp [h.ne', Nat.not_lt.2 h.le, show ¬ low < i + 1 by omega]

theorem getLsbD_add_twoPow (value : BitVec w) (low : Nat) (hi : i < w) :
    (value + BitVec.twoPow w low).getLsbD i =
      (value.getLsbD i ^^ decide (low ≤ i ∧ Filled value low i)) := by
  rw [BitVec.getLsbD_add hi, carry_twoPow value low hi.le, BitVec.getLsbD_twoPow]
  rcases Nat.lt_trichotomy low i with h | rfl | h
  · simp [h, h.ne, h.le]
  · have hempty : Filled value low low := fun j hj hj' => absurd hj' (by omega)
    simp [hempty, hi]
  · simp [h.ne', Nat.not_lt.2 h.le, Nat.not_le.2 h]

/-! ## The lowest run of a mask -/

/-- The lowest bits of the mask that stand together. -/
structure LowestRun (mask : BitVec w) (low top : Nat) : Prop where
  nonempty : low < top
  below : ∀ i < low, mask.getLsbD i = false
  filled : Filled mask low top
  ends : mask.getLsbD top = false

namespace LowestRun

theorem top_le (h : LowestRun mask low top) : top ≤ w := by
  have hlow := h.nonempty
  have hlast := h.filled (top - 1) (by omega) (by omega)
  have hlt := BitVec.lt_of_getLsbD hlast
  omega

theorem low_le (h : LowestRun mask low top) (hi : mask.getLsbD i = true) : low ≤ i := by
  refine Nat.le_of_not_lt fun hlt => ?_
  rw [h.below i hlt] at hi
  cases hi

theorem ne_zero (h : LowestRun mask low top) : mask ≠ 0#w := by
  rintro rfl
  have hfirst := h.filled low (Nat.le_refl _) h.nonempty
  simp at hfirst

theorem ctz_eq (h : LowestRun mask low top) : mask.ctz.toNat = low := by
  have hfirst := h.filled low (Nat.le_refl _) h.nonempty
  have hctz := BitVec.getLsbD_true_ctz_of_ne_zero h.ne_zero
  refine Nat.le_antisymm (Nat.le_of_not_lt fun hlt => ?_) (h.low_le hctz)
  rw [BitVec.getLsbD_false_of_lt_ctz hlt] at hfirst
  cases hfirst

theorem and_neg (h : LowestRun mask low top) : mask &&& -mask = BitVec.twoPow w low := by
  apply BitVec.eq_of_getLsbD_eq
  intro i hi
  rw [BitVec.getLsbD_and, BitVec.getLsbD_neg, BitVec.getLsbD_twoPow]
  have hfirst := h.filled low (Nat.le_refl _) h.nonempty
  rcases Nat.lt_trichotomy i low with hlt | rfl | hlt
  · simp [h.below i hlt, hlt.ne']
  · have hnone : ¬ ∃ j < i, mask.getLsbD j = true := by
      rintro ⟨j, hj, hset⟩
      exact absurd (h.low_le hset) hj.not_ge
    simp [hfirst, hi, hnone]
  · have hsome : ∃ j < i, mask.getLsbD j = true := ⟨low, hlt, hfirst⟩
    simp [hi, hsome, hlt.ne]

end LowestRun

theorem exists_lowestRun (h : mask ≠ 0#w) : ∃ low top, LowestRun mask low top := by
  have hfirst := BitVec.getLsbD_true_ctz_of_ne_zero h
  have hends : ∃ top, mask.ctz.toNat ≤ top ∧ mask.getLsbD top = false :=
    ⟨w, (toNat_ctz_lt h).le, BitVec.getLsbD_of_ge mask w (Nat.le_refl _)⟩
  obtain ⟨hle, hend⟩ := Nat.find_spec hends
  refine ⟨mask.ctz.toNat, Nat.find hends, ?_, fun i hi => BitVec.getLsbD_false_of_lt_ctz hi, ?_, hend⟩
  · refine lt_of_le_of_ne hle fun heq => ?_
    rw [← heq, hfirst] at hend
    cases hend
  · intro i hlow htop
    have hnot := Nat.find_min hends htop
    cases hbit : mask.getLsbD i with
    | true => rfl
    | false => exact absurd ⟨hlow, hbit⟩ hnot

/-! ## One step -/

def written (value mask : BitVec w) : BitVec w :=
  (value &&& ~~~mask) ||| (carried value mask &&& mask)

theorem written_zero (value : BitVec w) : written value 0#w = value := by
  apply BitVec.eq_of_getLsbD_eq
  intro i hi
  simp [written, hi]

theorem overflow_zero (value : BitVec w) : overflow value 0#w = 0#w := by
  simp [overflow, carried]

theorem increment_zero (value : BitVec w) : increment value 0#w = value := by
  rw [increment, if_pos rfl]

theorem increment_of_overflow_eq (h : overflow value mask = 0#w) :
    increment value mask = written value mask := by
  by_cases hmask : mask = 0#w
  · rw [hmask, increment_zero, written_zero]
  · rw [increment, if_neg hmask]
    exact if_pos h

theorem increment_of_overflow_ne (h : overflow value mask ≠ 0#w) :
    increment value mask = increment (written value mask) (overflow value mask <<< 1) := by
  have hmask : mask ≠ 0#w := fun hmask => h (hmask ▸ overflow_zero value)
  conv_lhs => rw [increment, if_neg hmask]
  exact if_neg h

theorem twoPow_ne_zero (h : i < w) : BitVec.twoPow w i ≠ 0#w := by
  intro hzero
  have hbit := congrArg (BitVec.getLsbD · i) hzero
  simp [h] at hbit

theorem twoPow_eq_zero (h : w ≤ i) : BitVec.twoPow w i = 0#w :=
  BitVec.eq_of_toNat_eq (BitVec.toNat_twoPow_of_le h)

namespace LowestRun

theorem filled_and_iff (h : LowestRun mask low top) (hi : i ≤ top) :
    Filled (value &&& mask) low i ↔ Filled value low i := by
  refine forall₃_congr fun j hlow hlt => ?_
  rw [BitVec.getLsbD_and, h.filled j hlow (by omega), Bool.and_true]

theorem not_filled_and (h : LowestRun mask low top) (hi : top < i) :
    ¬ Filled (value &&& mask) low i := by
  intro hfilled
  have hset := hfilled top h.nonempty.le hi
  rw [BitVec.getLsbD_and, h.ends, Bool.and_false] at hset
  cases hset

/-- The carry runs through the lowest run of the mask, at most to the bit above it. -/
theorem getLsbD_carried (h : LowestRun mask low top) (hi : i < w) :
    (carried value mask).getLsbD i =
      ((value.getLsbD i && mask.getLsbD i) ^^
        decide (low ≤ i ∧ i ≤ top ∧ Filled value low i)) := by
  rw [carried, h.and_neg, getLsbD_add_twoPow _ low hi, BitVec.getLsbD_and]
  congr 1
  rcases Nat.lt_or_ge top i with hlt | hle
  · simp [h.not_filled_and hlt, Nat.not_le.2 hlt]
  · simp [h.filled_and_iff hle, hle]

theorem overflow_eq (h : LowestRun mask low top) (value : BitVec w) :
    overflow value mask = if Filled value low top then BitVec.twoPow w top else 0#w := by
  apply BitVec.eq_of_getLsbD_eq
  intro i hi
  rw [overflow, BitVec.getLsbD_and, BitVec.getLsbD_not, h.getLsbD_carried hi, decide_eq_true hi,
    Bool.true_and]
  rcases Nat.lt_trichotomy i top with hlt | rfl | hlt
  · rcases Nat.lt_or_ge i low with hbelow | hrun
    · rw [h.below i hbelow]
      split <;> simp [hbelow.not_ge, hlt.ne']
    · rw [h.filled i hrun hlt]
      split <;> simp [hlt.ne']
  · rw [h.ends]
    split <;> simp_all [h.nonempty.le]
  · split <;> cases mask.getLsbD i <;> simp [hlt.not_ge, hlt.ne]

theorem getLsbD_written (h : LowestRun mask low top) (value : BitVec w) (i : Nat) :
    (written value mask).getLsbD i =
      (value.getLsbD i ^^ decide (low ≤ i ∧ i < top ∧ Filled value low i)) := by
  by_cases hi : i < w
  case neg =>
    have htop := h.top_le
    have hout : ¬ i < top := by omega
    rw [BitVec.getLsbD_of_ge _ i (by omega), BitVec.getLsbD_of_ge _ i (by omega)]
    simp [hout]
  case pos =>
  rw [written, BitVec.getLsbD_or, BitVec.getLsbD_and, BitVec.getLsbD_and, BitVec.getLsbD_not,
    h.getLsbD_carried hi, decide_eq_true hi, Bool.true_and]
  rcases Nat.lt_trichotomy i top with hlt | rfl | hlt
  · rcases Nat.lt_or_ge i low with hbelow | hrun
    · simp [h.below i hbelow, hbelow.not_ge]
    · simp [h.filled i hrun hlt, hrun, hlt, hlt.le]
  · simp [h.ends]
  · cases hbit : mask.getLsbD i <;> simp [hlt.not_ge, hlt.not_gt]

theorem getLsbD_written_of_filled (h : LowestRun mask low top) (hfull : Filled value low top)
    (i : Nat) :
    (written value mask).getLsbD i = (value.getLsbD i && !decide (low ≤ i ∧ i < top)) := by
  rw [h.getLsbD_written value i]
  by_cases hin : low ≤ i ∧ i < top
  · simp [hin, hfull i hin.1 hin.2, hfull.mono (Nat.le_refl _) hin.2.le]
  · rw [decide_eq_false hin, decide_eq_false (fun hflip => hin ⟨hflip.1, hflip.2.1⟩)]
    simp

theorem increment_of_not_filled (h : LowestRun mask low top) (hroom : ¬ Filled value low top) :
    increment value mask = value + BitVec.twoPow w low := by
  have hstays : overflow value mask = 0#w := by rw [h.overflow_eq, if_neg hroom]
  rw [increment_of_overflow_eq hstays]
  apply BitVec.eq_of_getLsbD_eq
  intro i hi
  rw [h.getLsbD_written value i, getLsbD_add_twoPow value low hi]
  congr 2
  rw [eq_iff_iff]
  constructor
  · exact fun ⟨hlow, _, hfilled⟩ => ⟨hlow, hfilled⟩
  · rintro ⟨hlow, hfilled⟩
    refine ⟨hlow, Nat.lt_of_not_le fun htop => hroom (hfilled.mono (Nat.le_refl _) htop), hfilled⟩

theorem increment_of_filled (h : LowestRun mask low top) (hfull : Filled value low top) :
    increment value mask = increment (written value mask) (BitVec.twoPow w (top + 1)) := by
  have hover : overflow value mask = BitVec.twoPow w top := by rw [h.overflow_eq, if_pos hfull]
  by_cases hlast : top < w
  · have hne : overflow value mask ≠ 0#w := by
      rw [hover]
      exact twoPow_ne_zero hlast
    rw [increment_of_overflow_ne hne, hover, BitVec.twoPow_eq, BitVec.twoPow_eq,
      BitVec.shiftLeft_add]
  · rw [twoPow_eq_zero (by omega), increment_zero]
    exact increment_of_overflow_eq (hover.trans (twoPow_eq_zero (by omega)))

end LowestRun

/-! ## The chain above a full run -/

/-- A carry that sets out at bit `first` and passes every other bit gets to bit `i`: those before
it are set. -/
def Reaches (value : BitVec w) (first i : Nat) : Prop :=
  first ≤ i ∧ 2 ∣ i - first ∧
    ∀ j, first ≤ j → j < i → 2 ∣ j - first → value.getLsbD j = true

instance (value : BitVec w) (first i : Nat) : Decidable (Reaches value first i) :=
  inferInstanceAs (Decidable (_ ∧ _ ∧ ∀ j, first ≤ j → j < i → _ → _))

theorem reaches_self (value : BitVec w) (first : Nat) : Reaches value first first :=
  ⟨Nat.le_refl _, by simp, fun j hle hlt => absurd hlt (Nat.not_lt.2 hle)⟩

theorem reaches_iff {first : Nat} (h : first ≠ i) :
    Reaches value first i ↔ value.getLsbD first = true ∧ Reaches value (first + 2) i := by
  constructor
  · rintro ⟨hle, heven, hset⟩
    refine ⟨hset first (Nat.le_refl _) (by omega) (by simp), by omega, by omega, ?_⟩
    exact fun j hlow hlt hj => hset j (by omega) hlt (by omega)
  · rintro ⟨hfirst, hle, heven, hset⟩
    refine ⟨by omega, by omega, fun j hlow hlt hj => ?_⟩
    by_cases hj' : j = first
    · rwa [hj']
    · exact hset j (by omega) hlt (by omega)

theorem Reaches.congr {other : BitVec w} {first : Nat}
    (h : ∀ j, first ≤ j → value.getLsbD j = other.getLsbD j) :
    Reaches value first i ↔ Reaches other first i := by
  refine and_congr_right fun _ => and_congr_right fun _ => forall₂_congr fun j hlow => ?_
  rw [h j hlow]

theorem lowestRun_twoPow {first : Nat} (h : first < w) :
    LowestRun (BitVec.twoPow w first) first (first + 1) where
  nonempty := Nat.lt_succ_self _
  below i hi := by simp [hi.ne']
  filled i hlow htop := by
    obtain rfl : first = i := by omega
    simp [h]
  ends := by simp

theorem getLsbD_increment_twoPow (value : BitVec w) (first : Nat) (hi : i < w) :
    (increment value (BitVec.twoPow w first)).getLsbD i =
      (value.getLsbD i ^^ decide (Reaches value first i)) := by
  by_cases hfirst : first < w
  case neg =>
    have hnot : ¬ Reaches value first i := fun h => hfirst (Nat.lt_of_le_of_lt h.1 hi)
    rw [twoPow_eq_zero (by omega), increment_zero, decide_eq_false hnot, Bool.xor_false]
  case pos =>
  have hrun := lowestRun_twoPow hfirst
  by_cases hset : value.getLsbD first = true
  case pos =>
    -- The bit is cleared, and the carry goes on from the next but one.
    have hfull : Filled value first (first + 1) := by
      intro j hlow htop
      rwa [show j = first by omega]
    rw [hrun.increment_of_filled hfull, getLsbD_increment_twoPow _ _ hi,
      hrun.getLsbD_written_of_filled hfull i]
    by_cases hsame : first = i
    · subst hsame
      have hpast : ¬ Reaches (written value (BitVec.twoPow w first)) (first + 2) first :=
        fun h => absurd h.1 (by omega)
      simp [hset, hpast, reaches_self]
    · have hkept (j : Nat) (hj : first + 2 ≤ j) :
          (written value (BitVec.twoPow w first)).getLsbD j = value.getLsbD j := by
        rw [hrun.getLsbD_written_of_filled hfull j]
        simp [show ¬ j < first + 1 by omega]
      have honward : Reaches (written value (BitVec.twoPow w first)) (first + 2) i ↔
          Reaches value first i := by
        rw [Reaches.congr hkept, reaches_iff hsame, hset, and_iff_right rfl]
      have hpast : ¬ (first ≤ i ∧ i < first + 1) := by omega
      rw [decide_eq_decide.2 honward, decide_eq_false hpast, Bool.not_false, Bool.and_true]
  case neg =>
    have hroom : ¬ Filled value first (first + 1) := fun hfull =>
      hset (hfull first (Nat.le_refl _) (Nat.lt_succ_self _))
    rw [hrun.increment_of_not_filled hroom, getLsbD_add_twoPow value first hi]
    congr 2
    rw [eq_iff_iff]
    by_cases hsame : first = i
    · subst hsame
      exact iff_of_true ⟨Nat.le_refl _, fun j hle hlt => absurd hlt (Nat.not_lt.2 hle)⟩
        (reaches_self value first)
    · rw [reaches_iff hsame]
      refine iff_of_false (fun h => hset (h.2 first (Nat.le_refl _) (by omega))) fun h => hset h.1
termination_by w - first

/-- A full run is cleared, and above it the bits are flipped that the carry gets to when it sets
out from the next but one. -/
theorem LowestRun.getLsbD_increment_of_filled (h : LowestRun mask low top)
    (hfull : Filled value low top) (hi : i < w) :
    (increment value mask).getLsbD i =
      ((value.getLsbD i && !decide (low ≤ i ∧ i < top)) ^^
        decide (Reaches value (top + 1) i)) := by
  have hkept (j : Nat) (hj : top + 1 ≤ j) :
      (written value mask).getLsbD j = value.getLsbD j := by
    rw [h.getLsbD_written_of_filled hfull j]
    simp [show ¬ j < top by omega]
  have honward : Reaches (written value mask) (top + 1) i ↔ Reaches value (top + 1) i :=
    Reaches.congr hkept
  rw [h.increment_of_filled hfull, getLsbD_increment_twoPow _ _ hi,
    h.getLsbD_written_of_filled hfull i, decide_eq_decide.2 honward]

/-- What becomes of a value in which the bits from `low` up to `top` were full. -/
structure CarriedOut (value next : BitVec w) (low top : Nat) : Prop where
  cleared : ∀ i, low ≤ i → i < top → next.getLsbD i = false
  /-- The carry passes over the bit above the run. -/
  passed : next.getLsbD top = value.getLsbD top
  /-- Bits that the carry gets to are cleared as long as they are set; the first clear one is set,
  and the carry ends there. -/
  flipped : ∀ i < w, Reaches value (top + 1) i → next.getLsbD i = !value.getLsbD i
  kept : ∀ i, i < low ∨ top ≤ i → ¬ Reaches value (top + 1) i →
    next.getLsbD i = value.getLsbD i

theorem LowestRun.carriedOut (h : LowestRun mask low top) (hfull : Filled value low top) :
    CarriedOut value (increment value mask) low top := by
  have hend := h.top_le
  have hkept (i : Nat) (hout : i < low ∨ top ≤ i) (hreach : ¬ Reaches value (top + 1) i) :
      (increment value mask).getLsbD i = value.getLsbD i := by
    by_cases hi : i < w
    · rw [h.getLsbD_increment_of_filled hfull hi]
      simp [hreach, show ¬ (low ≤ i ∧ i < top) by omega]
    · rw [BitVec.getLsbD_of_ge _ i (by omega), BitVec.getLsbD_of_ge _ i (by omega)]
  refine ⟨fun i hlow htop => ?_, ?_, fun i hi hreach => ?_, hkept⟩
  · have hbelow : ¬ Reaches value (top + 1) i := fun hreach => absurd hreach.1 (by omega)
    rw [h.getLsbD_increment_of_filled hfull (by omega)]
    simp [hlow, htop, hbelow]
  · exact hkept top (.inr (Nat.le_refl _)) fun hreach => absurd hreach.1 (by omega)
  · have habove := hreach.1
    rw [h.getLsbD_increment_of_filled hfull hi]
    simp [hreach, show ¬ i < top by omega]

/-! ## The run as a number -/

/-- The number in the bits from `low` up to, but not including, `top`. -/
def field (value : BitVec w) (low top : Nat) : Nat :=
  value.toNat / 2 ^ low % 2 ^ (top - low)

theorem field_lt (value : BitVec w) (low top : Nat) : field value low top < 2 ^ (top - low) :=
  Nat.mod_lt _ (Nat.two_pow_pos _)

theorem filled_iff_field_eq (value : BitVec w) (low top : Nat) :
    Filled value low top ↔ field value low top = 2 ^ (top - low) - 1 := by
  have htest (j : Nat) : (field value low top).testBit j =
      (decide (j < top - low) && value.getLsbD (low + j)) := by
    rw [field, Nat.testBit_mod_two_pow, Nat.testBit_div_two_pow, BitVec.testBit_toNat,
      Nat.add_comm]
  constructor
  · intro hfilled
    apply Nat.eq_of_testBit_eq
    intro j
    rw [htest, Nat.testBit_two_pow_sub_one]
    by_cases hj : j < top - low
    · simp [hj, hfilled (low + j) (by omega) (by omega)]
    · simp [hj]
  · intro heq i hlow htop
    have hbit := htest (i - low)
    rw [heq, Nat.testBit_two_pow_sub_one, Nat.add_sub_cancel' hlow] at hbit
    simpa [show i - low < top - low by omega] using hbit.symm

theorem add_mod_of_lt {n count m : Nat} (h : n % m + count < m) :
    (n + count) % m = n % m + count := by
  conv_lhs => rw [← Nat.div_add_mod n m, Nat.add_assoc, Nat.mul_add_mod]
  exact Nat.mod_eq_of_lt h

theorem toNat_add_twoPow (htop : low < top) (hw : top ≤ w)
    (hroom : field value low top + 1 < 2 ^ (top - low)) :
    (value + BitVec.twoPow w low).toNat = value.toNat + 2 ^ low := by
  have hvalue := value.isLt
  have hlow : low < w := by omega
  rw [BitVec.toNat_add, BitVec.toNat_twoPow_of_lt hlow]
  refine Nat.mod_eq_of_lt (Nat.lt_of_not_le fun hover => ?_)
  -- Otherwise all bits from `low` on would be set, and the field would be full.
  have hsplit : 2 ^ w = 2 ^ (w - low) * 2 ^ low := by
    rw [← Nat.pow_add, Nat.sub_add_cancel hlow.le]
  have hlast : value.toNat / 2 ^ low + 1 = 2 ^ (w - low) := by
    rw [← Nat.add_div_right _ (Nat.two_pow_pos low)]
    refine Nat.div_eq_of_lt_le ?_ ?_
    · rwa [← hsplit]
    · rw [Nat.succ_mul, ← hsplit]
      omega
  have hzero : (value.toNat / 2 ^ low + 1) % 2 ^ (top - low) = 0 := by
    rw [hlast]
    exact Nat.mod_eq_zero_of_dvd (Nat.pow_dvd_pow 2 (by omega))
  rw [add_mod_of_lt hroom] at hzero
  omega

theorem field_of_toNat_eq {other : BitVec w} {count : Nat}
    (h : other.toNat = value.toNat + count * 2 ^ low)
    (hroom : field value low top + count < 2 ^ (top - low)) :
    field other low top = field value low top + count := by
  rw [field, h, Nat.add_mul_div_right _ _ (Nat.two_pow_pos low), add_mod_of_lt hroom, field]

theorem LowestRun.toNat_iterate_increment (h : LowestRun mask low top) {count : Nat}
    (hroom : field value low top + count < 2 ^ (top - low)) :
    ((increment · mask)^[count] value).toNat = value.toNat + count * 2 ^ low := by
  induction count with
  | zero => simp
  | succ count ih =>
      have hroom' : field value low top + count < 2 ^ (top - low) := by omega
      have hbefore := ih hroom'
      rw [Function.iterate_succ_apply']
      generalize (increment · mask)^[count] value = reached at hbefore
      have hfield := field_of_toNat_eq hbefore hroom'
      have hnot : ¬ Filled reached low top := by
        rw [filled_iff_field_eq]
        omega
      rw [h.increment_of_not_filled hnot,
        toNat_add_twoPow h.nonempty h.top_le (by omega), hbefore]
      ring

/-! ## The calls of a step -/

/-- The step on the first pair of value and mask calls itself on the second. -/
structure Calls (p q : BitVec w × BitVec w) : Prop where
  overflows : overflow p.1 p.2 ≠ 0#w
  goesOn : q = (written p.1 p.2, overflow p.1 p.2 <<< 1)

namespace Calls

variable {p q : BitVec w × BitVec w}

theorem increment_eq (h : Calls p q) : increment p.1 p.2 = increment q.1 q.2 := by
  rw [increment_of_overflow_ne h.overflows, h.goesOn]

theorem mask_eq (h : Calls p q) :
    ∃ first, q.2 = BitVec.twoPow w first ∧ p.2.ctz.toNat + 2 ≤ first ∧ first ≤ w := by
  have hne : p.2 ≠ 0#w := fun hzero => h.overflows (hzero ▸ overflow_zero p.1)
  obtain ⟨low, top, hrun⟩ := exists_lowestRun hne
  have hover := hrun.overflow_eq p.1
  have hlow := hrun.nonempty
  split at hover
  case isFalse => exact absurd hover h.overflows
  case isTrue =>
    have htop : top < w := Nat.lt_of_not_le fun hge =>
      h.overflows (hover.trans (twoPow_eq_zero hge))
    refine ⟨top + 1, ?_, by rw [hrun.ctz_eq]; omega, htop⟩
    rw [h.goesOn, hover, BitVec.twoPow_eq, BitVec.twoPow_eq, BitVec.shiftLeft_add]

theorem ctz_twoPow (h : i ≤ w) : (BitVec.twoPow w i).ctz.toNat = i := by
  rcases Nat.lt_or_eq_of_le h with hlt | rfl
  · exact (lowestRun_twoPow hlt).ctz_eq
  · rw [twoPow_eq_zero (Nat.le_refl _), toNat_ctz_zero]

end Calls

theorem calls_le {p : BitVec w × BitVec w} {calls : List (BitVec w × BitVec w)}
    (h : List.IsChain Calls (p :: calls)) : p.2.ctz.toNat + 2 * calls.length ≤ w := by
  induction calls generalizing p with
  | nil =>
      rw [List.length_nil]
      by_cases hzero : p.2 = 0#w
      · rw [hzero, toNat_ctz_zero]
        omega
      · have := toNat_ctz_lt hzero
        omega
  | cons q rest ih =>
      obtain ⟨hcall, hrest⟩ := List.isChain_cons_cons.1 h
      obtain ⟨first, hmask, hup, hle⟩ := hcall.mask_eq
      have hbound := ih hrest
      rw [hmask, Calls.ctz_twoPow hle] at hbound
      rw [List.length_cons]
      omega

/-! ## Masks of one run -/

/-- The mask is the bits from `low` up to, but not including, `top`. -/
structure OneRun (mask : BitVec w) (low top : Nat) : Prop where
  nonempty : low < top
  getLsbD_eq : ∀ i, mask.getLsbD i = decide (low ≤ i ∧ i < top)

theorem oneRun_iff : OneRun mask low top ↔
    low < top ∧ top ≤ w ∧ ∀ i < w, mask.getLsbD i = decide (low ≤ i ∧ i < top) := by
  constructor
  · intro h
    have hnonempty := h.nonempty
    have hlast : mask.getLsbD (top - 1) = true := by
      rw [h.getLsbD_eq, decide_eq_true_iff]
      omega
    have hlt := BitVec.lt_of_getLsbD hlast
    exact ⟨h.nonempty, by omega, fun i _ => h.getLsbD_eq i⟩
  · rintro ⟨hnonempty, htop, hbits⟩
    refine ⟨hnonempty, fun i => ?_⟩
    by_cases hi : i < w
    · exact hbits i hi
    · rw [BitVec.getLsbD_of_ge _ i (by omega), eq_comm, decide_eq_false_iff_not]
      omega

instance (mask : BitVec w) (low top : Nat) : Decidable (OneRun mask low top) :=
  decidable_of_iff' _ oneRun_iff

theorem OneRun.lowestRun (h : OneRun mask low top) : LowestRun mask low top where
  nonempty := h.nonempty
  below i hi := by simp [h.getLsbD_eq, hi.not_ge]
  filled i hlow htop := by simp [h.getLsbD_eq, hlow, htop]
  ends := by simp [h.getLsbD_eq]

end Masked

open Masked

theorem toBitVec_iterate_incrementMasked (value mask : UInt32) (count : Nat) :
    ((incrementMasked · mask)^[count] value).toBitVec =
      (increment · mask.toBitVec)^[count] value.toBitVec := by
  induction count with
  | zero => rfl
  | succ count ih =>
      rw [Function.iterate_succ_apply', Function.iterate_succ_apply', ← ih]
      rfl

/-- A step calls itself at most sixteen times, each time under an empty mask or a single bit that
stands at least two bits above the lowest of the mask before. Under a mask of one run it adds one
at the run's lowest bit while the run is not full, so several steps add as much to the number in
the run as it has room for; a full run is cleared, and the carry goes through every other bit
above it. -/
theorem incrementMasked_carries (value mask : UInt32) :
    (∀ p q : BitVec 32 × BitVec 32, Calls p q →
      increment p.1 p.2 = increment q.1 q.2 ∧
        (q.2 = 0#32 ∨
          ∃ first < 32, q.2 = BitVec.twoPow 32 first ∧ p.2.ctz.toNat + 2 ≤ first)) ∧
    (∀ p : BitVec 32 × BitVec 32, (∀ q, ¬ Calls p q) → increment p.1 p.2 = written p.1 p.2) ∧
    (∀ calls, List.IsChain Calls ((value.toBitVec, mask.toBitVec) :: calls) →
      calls.length ≤ 16) ∧
    ∀ low top, OneRun mask.toBitVec low top →
      (¬ Filled value.toBitVec low top →
        (incrementMasked value mask).toNat = value.toNat + 2 ^ low) ∧
      (∀ count, field value.toBitVec low top + count ≤ 2 ^ (top - low) - 1 →
        ((incrementMasked · mask)^[count] value).toNat = value.toNat + count * 2 ^ low) ∧
      (Filled value.toBitVec low top →
        CarriedOut value.toBitVec (incrementMasked value mask).toBitVec low top) := by
  refine ⟨fun p q hcall => ⟨hcall.increment_eq, ?_⟩, fun p hlast => ?_, fun calls hchain => ?_,
    fun low top hone => ?_⟩
  · obtain ⟨first, hmask, hup, hle⟩ := hcall.mask_eq
    rcases Nat.lt_or_eq_of_le hle with hlt | rfl
    · exact .inr ⟨first, hlt, hmask, hup⟩
    · exact .inl hmask
  · exact increment_of_overflow_eq (not_not.1 fun hne => hlast _ ⟨hne, rfl⟩)
  · have hbound := calls_le hchain
    omega
  · have hrun := hone.lowestRun
    have hpos := Nat.two_pow_pos (top - low)
    have hsteps (count : Nat) (hroom : field value.toBitVec low top + count ≤ 2 ^ (top - low) - 1) :
        ((incrementMasked · mask)^[count] value).toNat = value.toNat + count * 2 ^ low := by
      rw [← UInt32.toNat_toBitVec, toBitVec_iterate_incrementMasked]
      exact hrun.toNat_iterate_increment (by omega)
    refine ⟨fun hroom => ?_, hsteps, hrun.carriedOut⟩
    have hlt := field_lt value.toBitVec low top
    rw [filled_iff_field_eq] at hroom
    have hone := hsteps 1 (by omega)
    rwa [Nat.one_mul] at hone

/-- The bits that version rolling leaves to the miner, all set, and the bit above them set as well:
the step calls itself once, and sets the bit above that one. -/
theorem incrementMasked_carries_of_full :
    OneRun (0x1fffe000 : UInt32).toBitVec 13 29 ∧ Filled (0x3fffe000 : UInt32).toBitVec 13 29 ∧
      Calls (0x3fffe000#32, 0x1fffe000#32) (0x20000000#32, 0x40000000#32) ∧
      increment 0x3fffe000#32 0x1fffe000#32 = increment 0x20000000#32 0x40000000#32 ∧
      CarriedOut (0x3fffe000 : UInt32).toBitVec (incrementMasked 0x3fffe000 0x1fffe000).toBitVec
        13 29 ∧
      ((incrementMasked · 0x1fffe000)^[3] 0x20000000).toNat = 0x20006000 := by
  have hone : OneRun (0x1fffe000 : UInt32).toBitVec 13 29 := by decide
  have hfull : Filled (0x3fffe000 : UInt32).toBitVec 13 29 := by decide
  have hcall : Calls (0x3fffe000#32, 0x1fffe000#32) (0x20000000#32, 0x40000000#32) :=
    ⟨by decide, by decide⟩
  obtain ⟨hcalls, -, -, hruns⟩ := incrementMasked_carries 0x3fffe000 0x1fffe000
  obtain ⟨-, hsteps, -⟩ := (incrementMasked_carries 0x20000000 0x1fffe000).2.2.2 13 29 hone
  exact ⟨hone, hfull, hcall, (hcalls _ _ hcall).1, (hruns 13 29 hone).2.2 hfull,
    hsteps 3 (by decide)⟩

end ChipChain
