import ChipChain.Bytes
import Mathlib.Tactic.Ring

/-!
# Words and their bytes

A word is the weighted sum of its bytes, so taking a word apart and putting it
together are inverse to each other in both directions.
-/

namespace ChipChain.Bytes

/-- A multiple of a power of two and a smaller number share no bits. -/
theorem mul_pow_or (a i : Nat) {b : Nat} (h : b < 2 ^ i) : a * 2 ^ i ||| b = a * 2 ^ i + b := by
  rw [← Nat.shiftLeft_eq, Nat.shiftLeft_add_eq_or_of_lt h]

theorem toNat_toUInt32BE (b3 b2 b1 b0 : UInt8) :
    (toUInt32BE b3 b2 b1 b0).toNat =
      b3.toNat * 2 ^ 24 + b2.toNat * 2 ^ 16 + b1.toNat * 2 ^ 8 + b0.toNat := by
  have h3 := b3.toNat_lt
  have h2 := b2.toNat_lt
  have h1 := b1.toNat_lt
  have h0 := b0.toNat_lt
  have e3 : b3.toNat <<< 24 % 2 ^ 32 = b3.toNat * 2 ^ 24 := by rw [Nat.shiftLeft_eq]; omega
  have e2 : b2.toNat <<< 16 % 2 ^ 32 = b2.toNat * 2 ^ 16 := by rw [Nat.shiftLeft_eq]; omega
  have e1 : b1.toNat <<< 8 % 2 ^ 32 = b1.toNat * 2 ^ 8 := by rw [Nat.shiftLeft_eq]; omega
  change ((b3.toNat <<< 24 % 2 ^ 32 ||| b2.toNat <<< 16 % 2 ^ 32) ||| b1.toNat <<< 8 % 2 ^ 32) |||
    b0.toNat = _
  rw [e3, e2, e1, mul_pow_or _ 24 (by omega)]
  -- Each further byte goes below a sum whose terms share a power of two.
  have o2 : b3.toNat * 2 ^ 24 + b2.toNat * 2 ^ 16 = (b3.toNat * 2 ^ 8 + b2.toNat) * 2 ^ 16 := by
    ring
  have o1 : (b3.toNat * 2 ^ 8 + b2.toNat) * 2 ^ 16 + b1.toNat * 2 ^ 8 =
      (b3.toNat * 2 ^ 16 + b2.toNat * 2 ^ 8 + b1.toNat) * 2 ^ 8 := by
    ring
  rw [o2, mul_pow_or _ 16 (by omega), o1, mul_pow_or _ 8 h0]

theorem ofUInt32BE_toUInt32BE (b3 b2 b1 b0 : UInt8) :
    ofUInt32BE (toUInt32BE b3 b2 b1 b0) = [b3, b2, b1, b0] := by
  have h := toNat_toUInt32BE b3 b2 b1 b0
  have h3 := b3.toNat_lt
  have h2 := b2.toNat_lt
  have h1 := b1.toNat_lt
  have h0 := b0.toNat_lt
  simp only [ofUInt32BE, List.cons.injEq, ← UInt8.toNat_inj, UInt32.toNat_toUInt8,
    UInt32.toNat_shiftRight, h, Nat.shiftRight_eq_div_pow, and_true, UInt32.reduceToNat,
    Nat.reduceMod]
  omega

theorem toUInt32BE_ofUInt32BE (word : UInt32) :
    toUInt32BE (word >>> 24).toUInt8 (word >>> 16).toUInt8 (word >>> 8).toUInt8 word.toUInt8 =
      word := by
  have h := word.toNat_lt
  simp only [← UInt32.toNat_inj, toNat_toUInt32BE, UInt32.toNat_toUInt8, UInt32.toNat_shiftRight,
    Nat.shiftRight_eq_div_pow, UInt32.reduceToNat, Nat.reduceMod]
  omega

end ChipChain.Bytes
