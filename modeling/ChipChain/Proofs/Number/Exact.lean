import Mathlib
import ChipChain.Proofs.Number

/-!
# Exact numbers in double precision

A number whose bits double precision has a place for is a double's exact value, and where a product
has no more bits than that, multiplying doubles is multiplying numbers (`exactDouble_mul`,
`rational?_exactDouble`). Whole numbers of at most fifty-three bits are such numbers.
-/

namespace ChipChain

open BinaryFormat Float.Model Float.Model.UnpackedFloat

/-- The number that a floating-point word stands for, if it stands for one. -/
def BinaryValue.rational? : BinaryValue → Option ℚ
  | .finite negative significand exponent =>
    some ((if negative then -1 else 1) * significand * 2 ^ exponent)
  | .infinite _ => none
  | .undefined => none

/-- The zeros that a significand is brought up by, its place is brought down by. -/
theorem rational?_significand {f : BinaryFormat} {n : Nat} {exponent : Int}
    (h : f.Holds n exponent) (negative : Bool) :
    (BinaryValue.finite negative (f.significandOf n)
      (exponent + n.log2 - f.fractionBits)).rational? =
        (BinaryValue.finite negative n exponent).rational? := by
  have hlog := h.log2_le
  have hdown : (2 : ℚ) ^ (f.fractionBits - n.log2) * 2 ^ (exponent + n.log2 - f.fractionBits) =
      2 ^ exponent := by
    rw [← zpow_natCast, ← zpow_add₀ (by norm_num)]
    congr 1
    omega
  simp only [BinaryValue.rational?, significandOf, Nat.cast_mul, Nat.cast_pow, Nat.cast_ofNat]
  rw [← hdown]
  generalize (2 : ℚ) ^ (exponent + n.log2 - f.fractionBits) = place
  ring_nf

/-- The number `n * 2 ^ exponent` is zero, or double precision has a place for each of its bits. -/
def Representable (n : Nat) (exponent : Int) : Prop :=
  n = 0 ∨ double.Holds n exponent

theorem representable_of_small {n : Nat} (hsmall : n < 2 ^ 53) : Representable n 0 := by
  by_cases hn : n = 0
  · exact .inl hn
  · have hlog : n.log2 ≤ 52 := Nat.le_of_lt_succ ((Nat.log2_lt hn).2 hsmall)
    exact .inr (holds_double hn hlog (by omega) (by omega))

/-! ## Unpacked doubles -/

def signOf (negative : Bool) : Sign :=
  if negative then .negative else .positive

theorem signOf_mul (a b : Bool) : signOf a * signOf b = signOf (a ^^ b) := by
  cases a <;> cases b <;> rfl

theorem significandOf_pos {n : Nat} (hn : n ≠ 0) : 0 < double.significandOf n :=
  Nat.mul_pos (Nat.pos_of_ne_zero hn) (Nat.two_pow_pos _)

def unpacked (negative : Bool) (n : Nat) (exponent : Int) : UnpackedFloat :=
  if hn : n = 0 then .zero (signOf negative)
  else .finite (signOf negative) (double.significandOf n) (exponent + n.log2 - 52)
    (significandOf_pos hn)

variable {negative : Bool} {n : Nat} {exponent : Int}

theorem unpacked_zero (negative : Bool) (exponent : Int) :
    unpacked negative 0 exponent = .zero (signOf negative) :=
  rfl

theorem unpacked_of_ne_zero (hn : n ≠ 0) :
    unpacked negative n exponent =
      .finite (signOf negative) (double.significandOf n) (exponent + n.log2 - 52)
        (significandOf_pos hn) :=
  dif_neg hn

section

variable (h : double.Holds n exponent)

include h

theorem significand_bounds :
    2 ^ 52 ≤ double.significandOf n ∧ double.significandOf n < 2 ^ 53 :=
  h.significandOf_bounds

theorem log2_significand : (double.significandOf n).log2 = 52 :=
  (Nat.log2_eq_iff (significandOf_pos h.ne_zero).ne').2 (significand_bounds h)

theorem least_le_place : -1074 ≤ exponent + n.log2 - 52 := by
  have hleast := h.least
  rwa [leastExponent_double] at hleast

theorem field_eq : (double.fieldOf n exponent : Int) = exponent + n.log2 + 1023 := by
  have hfield := h.fieldOf_eq
  rw [leastExponent_double] at hfield
  simp only [double] at hfield ⊢
  omega

end

/-! ## Rounding that loses nothing -/

theorem shiftRight_zeros (c k : Nat) :
    (⟨c * 2 ^ k, false, false⟩ : ExtendedMantissa) >>> k = ⟨c, false, false⟩ := by
  induction k generalizing c with
  | zero =>
      rw [Nat.pow_zero, Nat.mul_one]
      rfl
  | succ k ih =>
      have hdouble : c * 2 ^ (k + 1) = c * 2 * 2 ^ k := by
        rw [Nat.pow_succ, Nat.mul_assoc, Nat.mul_comm 2]
      change ((⟨c * 2 ^ (k + 1), false, false⟩ : ExtendedMantissa) >>> k).shiftRightOne = _
      rw [hdouble, ih, ExtendedMantissa.shiftRightOne]
      simp

/-- A significand of fifty-three bits is where it belongs, down to the least exponent. -/
theorem targetExponent_of_log2 {c : Nat} {e : Int} (hc : c.log2 = 52) (he : -1074 ≤ e) :
    Format.binary64.targetExponent (totalExponent c e) = e := by
  simp only [Format.targetExponent, totalExponent, Format.mantissaBits, Format.minExponent, hc]
  omega

/-- A number with fifty-three bits before its trailing zeros is not changed by rounding. -/
theorem roundWithAccuracy_zeros (sign : Sign) {c : Nat} {e : Int} (hc : c.log2 = 52) (hpos : 0 < c)
    (k : Nat) (he : -1074 ≤ e + k) :
    roundWithAccuracy Format.binary64 sign (c * 2 ^ k) e .exact =
      .finite sign c (e + k) hpos := by
  have hfirst : shiftToTargetExponent Format.binary64 (c * 2 ^ k) e .exact =
      (⟨c, false, false⟩, e + k) := by
    have htarget : Format.binary64.targetExponent (totalExponent (c * 2 ^ k) e) = e + k := by
      rw [← targetExponent_of_log2 hc he]
      simp only [totalExponent, log2_mul_two_pow hpos.ne']
      congr 1
      omega
    have hamount : (e + k - e).toNat = k := by omega
    rw [shiftToTargetExponent, htarget, shiftToExponent, hamount]
    exact congrArg (·, e + (k : Int)) (shiftRight_zeros c k)
  have hsecond : shiftToTargetExponent Format.binary64 c (e + k) .exact =
      (⟨c, false, false⟩, e + k) := by
    have hamount : (e + k - (e + k)).toNat = 0 := by omega
    rw [shiftToTargetExponent, targetExponent_of_log2 hc he, shiftToExponent, hamount]
    exact congrArg (_, ·) (Int.add_zero _)
  have hrounded : (⟨c, false, false⟩ : ExtendedMantissa).roundedMantissa = c := rfl
  simp only [roundWithAccuracy, hfirst, hrounded, hsecond, hpos.ne', dite_false]

theorem ofNat_eq_unpacked (hsmall : n < 2 ^ 53) :
    UnpackedFloat.ofNat Format.binary64 n = unpacked false n 0 := by
  rcases representable_of_small hsmall with rfl | h
  · rfl
  · have hlog : n.log2 ≤ 52 := h.log2_le
    have hpositive : compare (n : Int) 0 = .gt :=
      Int.compare_eq_gt.2 (Int.natCast_pos.2 (Nat.pos_of_ne_zero h.ne_zero))
    have htarget : Format.binary64.targetExponent (totalExponent n 0) = n.log2 - 52 := by
      simp only [Format.targetExponent, totalExponent, Format.mantissaBits, Format.minExponent]
      omega
    have hamount : (0 - ((n.log2 : Int) - 52)).toNat = 52 - n.log2 := by omega
    have hplace : (0 : Int) - (52 - n.log2 : Nat) = n.log2 - 52 := by omega
    have hround := roundWithAccuracy_zeros .positive (log2_significand h)
      (significandOf_pos h.ne_zero) 0 (e := n.log2 - 52) (by omega)
    simp only [Nat.pow_zero, Nat.mul_one, Int.natCast_zero, Int.add_zero] at hround
    rw [unpacked_of_ne_zero h.ne_zero, UnpackedFloat.ofNat, UnpackedFloat.ofInt,
      UnpackedFloat.normalize, hpositive]
    simp only [Int.toNat_natCast, UnpackedFloat.round, htarget, decreaseExponent, hamount, hplace,
      Nat.shiftLeft_eq, Int.zero_add]
    exact hround

theorem log2_add_log2_le {m n : Nat} (hm : m ≠ 0) (hn : n ≠ 0) :
    m.log2 + n.log2 ≤ (m * n).log2 := by
  rw [Nat.le_log2 (Nat.mul_ne_zero hm hn), Nat.pow_add]
  exact Nat.mul_le_mul (Nat.log2_self_le hm) (Nat.log2_self_le hn)

theorem significandOf_mul {m n : Nat} (hsmall : (m * n).log2 ≤ 52)
    (hle : m.log2 + n.log2 ≤ (m * n).log2) :
    double.significandOf m * double.significandOf n =
      double.significandOf (m * n) * 2 ^ (52 + (m * n).log2 - m.log2 - n.log2) := by
  have hplaces : 2 ^ (52 - m.log2) * 2 ^ (52 - n.log2) =
      2 ^ (52 - (m * n).log2) * 2 ^ (52 + (m * n).log2 - m.log2 - n.log2) := by
    rw [← Nat.pow_add, ← Nat.pow_add]
    congr 1
    omega
  simp only [significandOf, double]
  rw [Nat.mul_mul_mul_comm, hplaces, Nat.mul_assoc (m * n)]

theorem mul_unpacked {a b : Bool} {m n : Nat} {e f : Int} (h : Representable (m * n) (e + f)) :
    UnpackedFloat.mul Format.binary64 (unpacked a m e) (unpacked b n f) =
      unpacked (a ^^ b) (m * n) (e + f) := by
  by_cases hm : m = 0
  · subst hm
    rw [Nat.zero_mul, unpacked_zero, unpacked_zero, ← signOf_mul]
    by_cases hn : n = 0
    · subst hn
      rfl
    · rw [unpacked_of_ne_zero hn]
      rfl
  by_cases hn : n = 0
  · subst hn
    rw [Nat.mul_zero, unpacked_zero, unpacked_zero, unpacked_of_ne_zero hm, ← signOf_mul]
    rfl
  have hmn := Nat.mul_ne_zero hm hn
  have hholds := h.resolve_left hmn
  have hlog : (m * n).log2 ≤ 52 := hholds.log2_le
  have hle := log2_add_log2_le hm hn
  have hleast := least_le_place hholds
  have hplace : (e + m.log2 - 52) + (f + n.log2 - 52) +
      (52 + (m * n).log2 - m.log2 - n.log2 : Nat) = e + f + (m * n).log2 - 52 := by omega
  have hround := roundWithAccuracy_zeros (signOf (a ^^ b)) (log2_significand hholds)
    (significandOf_pos hmn) (52 + (m * n).log2 - m.log2 - n.log2)
    (e := (e + m.log2 - 52) + (f + n.log2 - 52)) (by omega)
  rw [unpacked_of_ne_zero hm, unpacked_of_ne_zero hn, unpacked_of_ne_zero hmn]
  change roundWithAccuracy _ (signOf a * signOf b)
    (double.significandOf m * double.significandOf n) _ .exact = _
  rw [signOf_mul, significandOf_mul hlog hle, hround]
  simp only [hplace]

/-! ## Words -/

theorem toNat_ofNat_field (h : double.Holds n exponent) :
    (BitVec.ofNat 11 (double.fieldOf n exponent)).toNat = double.fieldOf n exponent := by
  have hlt : double.fieldOf n exponent < 2047 := h.fieldOf_lt
  rw [BitVec.toNat_ofNat]
  exact Nat.mod_eq_of_lt (by omega)

theorem pack_unpacked (h : double.Holds n exponent) :
    UnpackedFloat.pack Format.binary64 (unpacked negative n exponent) =
      packComponents Format.binary64 (signOf negative)
        (BitVec.ofNat 11 (double.fieldOf n exponent))
        (BitVec.ofNat 52 (double.significandOf n)) := by
  have hplace := field_eq h
  have hlt : double.fieldOf n exponent < 2047 := h.fieldOf_lt
  have hfield : (exponent + n.log2 - 52 + Format.binary64.exponentBias + (52 : Nat)).toNat =
      double.fieldOf n exponent := by
    simp only [Format.exponentBias]
    omega
  have hfinite : ¬ 2 ^ 11 ≤ double.fieldOf n exponent + 1 := by omega
  rw [unpacked_of_ne_zero h.ne_zero, UnpackedFloat.pack]
  simp only [hfield, if_neg hfinite, log2_significand h]
  rfl

theorem toNat_signOf (negative : Bool) : (signOf negative).toBitVec.toNat = negative.toNat := by
  cases negative <;> rfl

theorem toNat_pack_unpacked (h : Representable n exponent) :
    (UnpackedFloat.pack Format.binary64 (unpacked negative n exponent)).toNat =
      double.write (.finite negative n exponent) := by
  rcases h with rfl | h
  · rw [write_zero, unpacked_zero]
    cases negative <;> decide
  · obtain ⟨hlow, hhigh⟩ := significand_bounds h
    have hfraction : double.significandOf n % 2 ^ 52 = double.significandOf n - 2 ^ 52 := by omega
    rw [pack_unpacked h, packComponents, BitVec.toNat_append, BitVec.toNat_append,
      ← Nat.shiftLeft_add_eq_or_of_lt (BitVec.isLt _),
      ← Nat.shiftLeft_add_eq_or_of_lt (BitVec.isLt _), toNat_ofNat_field h, BitVec.toNat_ofNat,
      hfraction, Nat.shiftLeft_eq, Nat.shiftLeft_eq, toNat_signOf, h.write_eq, signBits_eq]
    simp only [double]
    omega

theorem unpack_pack_unpacked (h : Representable n exponent) :
    UnpackedFloat.unpack Format.binary64
        (UnpackedFloat.pack Format.binary64 (unpacked negative n exponent)) =
      unpacked negative n exponent := by
  rcases h with rfl | h
  · rw [unpacked_zero]
    cases negative <;> rfl
  obtain ⟨hlow, hhigh⟩ := significand_bounds h
  have hlt : double.fieldOf n exponent < 2047 := h.fieldOf_lt
  have hne := h.fieldOf_ne_zero
  have hfield := toNat_ofNat_field h
  have hfinite : BitVec.ofNat 11 (double.fieldOf n exponent) ≠ -1#11 := by
    intro heq
    have hfull : double.fieldOf n exponent = 2047 := by rw [← hfield, heq]; rfl
    omega
  have hnormal : BitVec.ofNat 11 (double.fieldOf n exponent) ≠ 0#11 := by
    intro heq
    have hempty : double.fieldOf n exponent = 0 := by rw [← hfield, heq]; rfl
    omega
  have hleading : (1#1 ++ BitVec.ofNat 52 (double.significandOf n)).toNat =
      double.significandOf n := by
    rw [BitVec.toNat_append, ← Nat.shiftLeft_add_eq_or_of_lt (BitVec.isLt _), BitVec.toNat_ofNat]
    simp only [BitVec.toNat_ofNat, Nat.shiftLeft_eq]
    omega
  have hplace : ((double.fieldOf n exponent : Nat) : Int) -
      ((Format.binary64.exponentBias : Int) + (52 : Nat)) = exponent + n.log2 - 52 := by
    have hvalue := field_eq h
    simp only [Format.exponentBias]
    omega
  rw [pack_unpacked h, unpacked_of_ne_zero h.ne_zero, UnpackedFloat.unpack]
  simp only [unpackMantissa_packComponents, unpackExponent_packComponents,
    unpackSign_packComponents, Sign.ofBitVec_toBitVec, if_neg hfinite, if_neg hnormal, hfield,
    hleading, hplace]

/-! ## Doubles -/

/-- The double of `± n * 2 ^ exponent`. -/
def exactDouble (negative : Bool) (n : Nat) (exponent : Int) : Float :=
  .ofModel (.pack (unpacked negative n exponent))

def wholeDouble (n : Nat) : Float :=
  exactDouble false n 0

theorem toFloat_eq_wholeDouble (x : UInt32) : x.toFloat = wholeDouble x.toNat := by
  have hsmall : x.toNat < 2 ^ 53 := Nat.lt_trans x.toNat_lt (by decide)
  rw [UInt32.toFloat, Float.Model.ofUInt32, UnpackedFloat.ofUInt32, ofNat_eq_unpacked hsmall]
  rfl

/-- A product that double precision has room for is multiplied without rounding. -/
theorem exactDouble_mul {a b : Bool} {m n : Nat} {e f : Int} (hm : Representable m e)
    (hn : Representable n f) (h : Representable (m * n) (e + f)) :
    exactDouble a m e * exactDouble b n f = exactDouble (a ^^ b) (m * n) (e + f) := by
  change Float.ofModel (.pack (UnpackedFloat.mul _
    (UnpackedFloat.unpack _ (UnpackedFloat.pack _ (unpacked a m e)))
    (UnpackedFloat.unpack _ (UnpackedFloat.pack _ (unpacked b n f))))) = _
  rw [unpack_pack_unpacked hm, unpack_pack_unpacked hn, mul_unpacked h]
  rfl

theorem toFloat_mul_toFloat {x y : UInt32} (hsmall : x.toNat * y.toNat < 2 ^ 53) :
    x.toFloat * y.toFloat = wholeDouble (x.toNat * y.toNat) := by
  have hx : x.toNat < 2 ^ 53 := Nat.lt_trans x.toNat_lt (by decide)
  have hy : y.toNat < 2 ^ 53 := Nat.lt_trans y.toNat_lt (by decide)
  rw [toFloat_eq_wholeDouble, toFloat_eq_wholeDouble]
  exact exactDouble_mul (representable_of_small hx) (representable_of_small hy)
    (representable_of_small hsmall)

theorem ofFloat_exactDouble (h : Representable n exponent) :
    BinaryValue.ofFloat (exactDouble negative n exponent) =
      double.read (double.write (.finite negative n exponent)) := by
  rw [← toNat_pack_unpacked h]
  rfl

theorem ofBits_write (h : Representable n exponent) :
    Float.ofBits (.ofNat (double.write (.finite negative n exponent))) =
      exactDouble negative n exponent := by
  have hbits : UInt64.ofNat (double.write (.finite negative n exponent)) =
      (exactDouble negative n exponent).toBits := by
    have hlt : double.write (.finite negative n exponent) < 2 ^ 64 := write_finite_lt ..
    rw [← UInt64.toNat_inj, UInt64.toNat_ofNat', Nat.mod_eq_of_lt hlt, ← toNat_pack_unpacked h]
    rfl
  rw [hbits, Float.ofBits_toBits]

/-- Read back from its word, a number is exact. -/
theorem rational?_exactDouble (h : Representable n exponent) :
    (BinaryValue.ofFloat (exactDouble negative n exponent)).rational? =
      (BinaryValue.finite negative n exponent).rational? := by
  rw [ofFloat_exactDouble h]
  rcases h with rfl | h
  · have hread : double.read (double.signBits negative) = .finite negative 0 (-1074) := by
      cases negative <;> decide
    rw [write_zero, hread]
    simp [BinaryValue.rational?]
  · rw [h.read_write, rational?_significand h]

theorem rational?_wholeDouble (hsmall : n < 2 ^ 53) :
    (BinaryValue.ofFloat (wholeDouble n)).rational? = some (n : ℚ) := by
  rw [wholeDouble, rational?_exactDouble (representable_of_small hsmall)]
  simp [BinaryValue.rational?]

end ChipChain
