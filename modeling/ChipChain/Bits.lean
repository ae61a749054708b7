import ChipChain.Bytes

/-!
# Bit fields

Reversed bytes, powers of two, the ticket mask that sets the reporting
difficulty, and counting on the bits that a mask selects.
-/

namespace ChipChain

/-! ## Powers of two and ticket masks -/

/-- The byte with its bits in the opposite order. -/
def reverseBits (byte : UInt8) : UInt8 :=
  UInt8.ofBitVec byte.toBitVec.reverse

/-- The largest power of two that is at most `n`; one where `n` is zero. -/
def largestPowerOfTwo (n : Nat) : Nat :=
  Nat.pow 2 n.log2

/-- The widest run of low bits whose value stays below the difficulty. -/
def difficultyMask (difficulty : UInt32) : UInt32 :=
  UInt32.ofNat (largestPowerOfTwo difficulty.toNat - 1)

/-- The mask as it travels: most significant byte first, each byte reversed. -/
def ticketMaskBytes (difficulty : UInt32) : Bytes :=
  (Bytes.ofUInt32BE (difficultyMask difficulty)).map reverseBits

def ticketMaskValue (b3 b2 b1 b0 : UInt8) : UInt32 :=
  Bytes.toUInt32BE (reverseBits b3) (reverseBits b2) (reverseBits b1) (reverseBits b0)

def ticketMaskWord (difficulty : UInt32) : UInt32 :=
  match ticketMaskBytes difficulty with
  | [b3, b2, b1, b0] => Bytes.toUInt32BE b3 b2 b1 b0
  | _ => 0

/-! ## Counting on masked bits -/

namespace Masked

variable {w : Nat}

/-- The number that the value's bits under the mask make when they are pushed together. -/
def reading (value mask : BitVec w) : Nat :=
  (List.range w).foldr (fun i higher =>
    if mask.getLsbD i then 2 * higher + (value.getLsbD i).toNat else higher) 0

/-- One at the mask's lowest bit, added to the value's bits under the mask. -/
def carried (value mask : BitVec w) : BitVec w :=
  (value &&& mask) + (mask &&& -mask)

/-- The part of the carry that left the mask. -/
def overflow (value mask : BitVec w) : BitVec w :=
  carried value mask &&& ~~~mask

/-- The empty mask has no lowest bit. -/
theorem toNat_ctz_zero : (0#w).ctz.toNat = w := by
  have h : (0#w).reverse.clz = w := BitVec.clz_eq_iff_eq_zero.2 (by simp)
  rw [BitVec.ctz, h]
  simp [Nat.mod_eq_of_lt Nat.lt_two_pow_self]

/-- A mask that is not empty has its lowest bit inside the word. -/
theorem toNat_ctz_lt {mask : BitVec w} (h : mask ≠ 0#w) : mask.ctz.toNat < w := by
  have := (BitVec.ctz_lt_iff_ne_zero ).2 h
  simpa [BitVec.lt_def, BitVec.toNat_ofNat, Nat.mod_eq_of_lt Nat.lt_two_pow_self] using this

/-- Bits below the mask's lowest bit are clear in any carry. -/
theorem getLsbD_carried_of_lt_ctz {value mask : BitVec w} {i : Nat}
    (h : i < mask.ctz.toNat) : (carried value mask).getLsbD i = false := by
  have clear : ∀ x : BitVec w, (∀ j < mask.ctz.toNat, x.getLsbD j = false) →
      x.toNat % 2 ^ mask.ctz.toNat = 0 := by
    intro x hx
    apply Nat.eq_of_testBit_eq
    intro j
    rw [Nat.testBit_mod_two_pow, Nat.zero_testBit]
    by_cases hj : j < mask.ctz.toNat
    · have := hx j hj
      simp [BitVec.getLsbD] at this
      simp [this]
    · simp [hj]
  have ha := clear (value &&& mask) fun j hj => by
    simp [BitVec.getLsbD_and, BitVec.getLsbD_false_of_lt_ctz hj]
  have hb := clear (mask &&& -mask) fun j hj => by
    simp only [BitVec.getLsbD_and, BitVec.getLsbD_false_of_lt_ctz hj, Bool.false_and]
  have hw : mask.ctz.toNat ≤ w := by
    by_cases hm : mask = 0#w
    · exact Nat.le_of_eq (by rw [hm, toNat_ctz_zero])
    · exact Nat.le_of_lt (toNat_ctz_lt hm)
  have hsum : (carried value mask).toNat % 2 ^ mask.ctz.toNat = 0 := by
    rw [carried, BitVec.toNat_add, Nat.mod_mod_of_dvd _ (Nat.pow_dvd_pow 2 hw), Nat.add_mod,
      ha, hb]
    simp
  have := congrArg (·.testBit i) hsum
  simpa [Nat.testBit_mod_two_pow, h, BitVec.getLsbD] using this

/-- The mask the overflow is carried under starts above the mask it left. -/
theorem ctz_lt_ctz_overflow {value mask : BitVec w} (h : mask ≠ 0#w) :
    mask.ctz.toNat < (overflow value mask <<< 1).ctz.toNat := by
  by_cases hz : overflow value mask <<< 1 = 0#w
  · rw [hz, toNat_ctz_zero]
    exact toNat_ctz_lt h
  · apply Nat.lt_of_not_le
    intro hle
    have htrue := BitVec.getLsbD_true_ctz_of_ne_zero hz
    have hfalse : ∀ i ≤ mask.ctz.toNat, (overflow value mask <<< 1).getLsbD i = false := by
      intro i hi
      rw [BitVec.getLsbD_shiftLeft]
      by_cases h0 : i < 1
      · simp [h0]
      · have hlt : i - 1 < mask.ctz.toNat := by omega
        simp [overflow, BitVec.getLsbD_and, getLsbD_carried_of_lt_ctz hlt]
    rw [hfalse _ hle] at htrue
    exact Bool.noConfusion htrue

/-- Add one to the number read from the bits under `mask`. A carry that leaves the mask is added
two places above the bit it would have reached, and so on until it settles or runs off the end. -/
def increment (value mask : BitVec w) : BitVec w :=
  if mask = 0#w then value
  else
    let next := (value &&& ~~~mask) ||| (carried value mask &&& mask)
    if overflow value mask = 0#w then next
    else increment next (overflow value mask <<< 1)
termination_by w - mask.ctz.toNat
decreasing_by
  have hlt := @ctz_lt_ctz_overflow w value mask ‹mask ≠ 0#w›
  have hw := toNat_ctz_lt ‹mask ≠ 0#w›
  omega

end Masked

/-- Step a version word through the values that its mask lets it take. -/
def incrementMasked (value mask : UInt32) : UInt32 :=
  UInt32.ofBitVec (Masked.increment value.toBitVec mask.toBitVec)

end ChipChain
