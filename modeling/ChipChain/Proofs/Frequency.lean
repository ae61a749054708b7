import ChipChain.Frequency
import ChipChain.Proofs.Number.Exact

/-!
# Hertz from megahertz

Every number of megahertz in single precision is multiplied by a million without rounding
(`Frequency.hertzDouble_eq`), so the only rounding is that to whole hertz
(`Frequency.ofMhz_nearest`). What is no number gives nothing, save positive infinity, which gives
the largest frequency.
-/

namespace ChipChain

open BinaryFormat

/-! ## Nearest whole numbers -/

theorem roundDiv_up (num : Nat) {den : Nat} (h : 0 < den) :
    roundDiv .up num den = (2 * num + den) / (2 * den) := by
  have hsplit := Nat.div_add_mod' num den
  have hlt := Nat.mod_lt num h
  have hlow : num / den * (2 * den) = 2 * (num / den * den) := by ring
  have hnext : (num / den + 1) * (2 * den) = 2 * (num / den * den) + 2 * den := by ring
  have hlast : (num / den + 1 + 1) * (2 * den) = 2 * (num / den * den) + 4 * den := by ring
  symm
  rw [roundDiv]
  split_ifs
  all_goals exact Nat.div_eq_of_lt_le (by omega) (by omega)

theorem roundDiv_up_eq_floor (num : Nat) {den : Nat} (h : 0 < den) :
    roundDiv .up num den = ⌊(num / den + 1 / 2 : ℚ)⌋₊ := by
  have hden : (den : ℚ) ≠ 0 := Nat.cast_ne_zero.2 h.ne'
  have hsum : (num / den + 1 / 2 : ℚ) = ((2 * num + den : ℕ) : ℚ) / ((2 * den : ℕ) : ℚ) := by
    push_cast
    field_simp
  rw [roundDiv_up num h, hsum, Nat.floor_div_eq_div]

theorem ratioOf_div (n : Nat) (exponent : Int) :
    ((ratioOf n exponent).1 / (ratioOf n exponent).2 : ℚ) = n * 2 ^ exponent := by
  have hparts : (2 : ℚ) ^ exponent = 2 ^ exponent.toNat / 2 ^ (-exponent).toNat := by
    rw [← zpow_natCast, ← zpow_natCast, ← zpow_sub₀ (by norm_num)]
    congr 1
    omega
  rw [ratioOf_eq, hparts]
  push_cast
  ring

theorem BinaryValue.exists_finite {v : BinaryValue} {x : ℚ} (h : v.rational? = some x) :
    ∃ negative n exponent, v = .finite negative n exponent := by
  cases v with
  | undefined => cases h
  | infinite negative => cases h
  | finite negative n exponent => exact ⟨negative, n, exponent, rfl⟩

theorem BinaryValue.nearestWhole_eq {v : BinaryValue} {x : ℚ} (h : v.rational? = some x)
    (limit : Nat) : v.nearestWhole limit = min limit ⌊x + 1 / 2⌋₊ := by
  cases v with
  | undefined => cases h
  | infinite negative => cases h
  | finite negative n exponent =>
      have hplace : 0 < (2 : ℚ) ^ exponent := by positivity
      cases negative with
      | true =>
          have hx : x = -(n * 2 ^ exponent) := by
            rw [← Option.some.inj h]
            simp
          have hnone : ⌊x + 1 / 2⌋₊ = 0 := by
            rw [Nat.floor_eq_zero, hx]
            have hnonneg : 0 ≤ (n : ℚ) * 2 ^ exponent := by positivity
            linarith
          rw [hnone, Nat.min_zero]
          rfl
      | false =>
          have hx : x = n * 2 ^ exponent := by
            rw [← Option.some.inj h]
            simp
          have hden : 0 < (ratioOf n exponent).2 := by
            rw [ratioOf_eq]
            exact Nat.two_pow_pos _
          change min limit (roundDiv .up (ratioOf n exponent).1 (ratioOf n exponent).2) = _
          rw [roundDiv_up_eq_floor _ hden, ratioOf_div, hx]

/-! ## Single words -/

namespace Single

variable {x : Single} {negative : Bool} {n : Nat} {exponent : Int}

/-- Double precision has a place for every bit of a single word's product with a number of at most
twenty-nine bits. -/
theorem representable_mul (h : x.value = .finite negative n exponent) {m : Nat}
    (hm : m < 2 ^ 29) : Representable (n * m) exponent := by
  obtain ⟨hsmall, hleast, hmost⟩ := read_bounds h
  rw [leastExponent_single] at hleast hmost
  simp only [single] at hsmall hmost
  by_cases hzero : n * m = 0
  · exact .inl hzero
  · have hlt : n * m < 2 ^ 53 := by
      calc
        n * m < 2 ^ 24 * 2 ^ 29 := Nat.mul_lt_mul'' hsmall hm
        _ = 2 ^ 53 := by decide
    have hlog : (n * m).log2 < 53 := (Nat.log2_lt hzero).2 hlt
    exact .inr (holds_double hzero (by omega) (by omega) (by omega))

theorem representable (h : x.value = .finite negative n exponent) :
    Representable n exponent := by
  have hone := representable_mul h (m := 1) (by decide)
  rwa [Nat.mul_one] at hone

theorem toFloat_eq (h : x.value = .finite negative n exponent) :
    x.toFloat = exactDouble negative n exponent := by
  rw [toFloat, h, ofBits_write (representable h)]

theorem rational?_toFloat {q : ℚ} (h : x.value.rational? = some q) :
    (BinaryValue.ofFloat x.toFloat).rational? = some q := by
  obtain ⟨negative, n, exponent, hvalue⟩ := BinaryValue.exists_finite h
  rw [toFloat_eq hvalue, rational?_exactDouble (representable hvalue), ← hvalue, h]

end Single

namespace Frequency

theorem million_eq : (1000000.0 : Float) = wholeDouble 1000000 :=
  rfl

variable {mhz : Single} {negative : Bool} {n : Nat} {exponent : Int}

theorem hertzDouble_eq (h : mhz.value = .finite negative n exponent) :
    hertzDouble mhz = exactDouble negative (n * 1000000) exponent := by
  have hproduct := Single.representable_mul h (m := 1000000) (by decide)
  rw [← Int.add_zero exponent] at hproduct
  rw [hertzDouble, Single.toFloat_eq h, million_eq, wholeDouble,
    exactDouble_mul (Single.representable h) (representable_of_small (by decide)) hproduct,
    Bool.xor_false, Int.add_zero]

theorem rational?_hertzDouble {x : ℚ} (h : mhz.value.rational? = some x) :
    (BinaryValue.ofFloat (hertzDouble mhz)).rational? = some (x * 1000000) := by
  obtain ⟨negative, n, exponent, hvalue⟩ := BinaryValue.exists_finite h
  have hrepresentable := Single.representable_mul hvalue (m := 1000000) (by decide)
  rw [hvalue] at h
  rw [hertzDouble_eq hvalue, rational?_exactDouble hrepresentable, ← Option.some.inj h]
  simp only [BinaryValue.rational?, Option.some.injEq]
  push_cast
  ring

theorem ofMhz_of_rational {x : ℚ} (h : mhz.value.rational? = some x) :
    (ofMhz mhz).hz = min maxHz ⌊x * 1000000 + 1 / 2⌋₊ :=
  BinaryValue.nearestWhole_eq (rational?_hertzDouble h) maxHz

theorem ofMhz_undefined (h : mhz.value = .undefined) : (ofMhz mhz).hz = 0 := by
  rw [ofMhz, hertzDouble, Single.toFloat, h]
  decide +kernel

theorem ofMhz_infinite (h : mhz.value = .infinite negative) :
    (ofMhz mhz).hz = if negative then 0 else maxHz := by
  rw [ofMhz, hertzDouble, Single.toFloat, h]
  cases negative <;> decide +kernel

theorem ofMhz_whole {n : Nat} (hsmall : n < 2 ^ 23) :
    ofMhz (Single.ofRatio n 1) = ⟨n * 1000000⟩ := by
  have hvalue : (Single.ofRatio n 1).value.rational? = some (n : ℚ) := by
    by_cases hn : n = 0
    · subst hn
      have hzero : (Single.ofRatio 0 1).value = .finite false 0 (-149) := by decide
      rw [hzero]
      simp [BinaryValue.rational?]
    · rw [Single.value_whole hn hsmall, rational?_significand (Single.holds_whole hn hsmall)]
      simp [BinaryValue.rational?]
  have hfits : n * 1000000 ≤ maxHz := by
    rw [maxHz, Nat.pow_eq]
    omega
  have hfloor : ⌊(n * 1000000 + 1 / 2 : ℚ)⌋₊ = n * 1000000 := by
    rw [Nat.floor_eq_iff (by positivity)]
    push_cast
    constructor <;> linarith
  have hhz := ofMhz_of_rational hvalue
  rw [hfloor, Nat.min_eq_right hfits] at hhz
  exact congrArg Frequency.mk hhz

/-- Of every number of megahertz in single precision the double and its product with a million are
exact, and the frequency is the whole number nearest to that product, halves away from zero, as far
as sixty-four bits hold it. Below zero and for what is no number it is zero, but for positive
infinity it is the largest. -/
theorem ofMhz_nearest (mhz : Single) :
    (∀ x, mhz.value.rational? = some x →
      (BinaryValue.ofFloat mhz.toFloat).rational? = some x ∧
      (BinaryValue.ofFloat (hertzDouble mhz)).rational? = some (x * 1000000) ∧
      (0 ≤ x → (ofMhz mhz).hz = min (2 ^ 64 - 1) ⌊x * 1000000 + 1 / 2⌋₊) ∧
      (x < 0 → (ofMhz mhz).hz = 0)) ∧
    (mhz.value.rational? = none →
      (ofMhz mhz).hz = if mhz.value = .infinite false then 2 ^ 64 - 1 else 0) := by
  constructor
  · intro x hx
    refine ⟨Single.rational?_toFloat hx, rational?_hertzDouble hx, fun _ => ofMhz_of_rational hx,
      fun hneg => ?_⟩
    have hnone : ⌊x * 1000000 + 1 / 2⌋₊ = 0 := Nat.floor_eq_zero.2 (by linarith)
    rw [ofMhz_of_rational hx, hnone, Nat.min_zero]
  · intro hnone
    cases hvalue : mhz.value with
    | undefined => exact ofMhz_undefined hvalue
    | infinite negative =>
        rw [ofMhz_infinite hvalue]
        cases negative <;> rfl
    | finite negative n exponent =>
        rw [hvalue] at hnone
        cases hnone

/-- A tie goes up, a number below zero gives zero, and so does what is no number. -/
theorem ofMhz_nearest_of_tie :
    (Single.mk 0x3c000000).value.rational? = some (1 / 128) ∧
      (ofMhz ⟨0x3c000000⟩).hz = 7813 ∧
      (Single.mk 0xc0a00000).value.rational? = some (-5) ∧
      (ofMhz ⟨0xc0a00000⟩).hz = 0 ∧
      (Single.mk 0x7fc00000).value.rational? = none ∧
      (ofMhz ⟨0x7fc00000⟩).hz = 0 := by
  have htie : (Single.mk 0x3c000000).value.rational? = some (1 / 128) := by
    have hvalue : (Single.mk 0x3c000000).value = .finite false (2 ^ 23) (-30) := by decide
    rw [hvalue]
    norm_num [BinaryValue.rational?]
  have hbelow : (Single.mk 0xc0a00000).value.rational? = some (-5) := by
    have hvalue : (Single.mk 0xc0a00000).value = .finite true (5 * 2 ^ 21) (-21) := by decide
    rw [hvalue]
    norm_num [BinaryValue.rational?]
  have hnone : (Single.mk 0x7fc00000).value = .undefined := by decide
  have hnot : (Single.mk 0x7fc00000).value.rational? = none := by rw [hnone]; rfl
  obtain ⟨-, -, hnearest, -⟩ := (ofMhz_nearest ⟨0x3c000000⟩).1 _ htie
  obtain ⟨-, -, -, hzero⟩ := (ofMhz_nearest ⟨0xc0a00000⟩).1 _ hbelow
  refine ⟨htie, ?_, hbelow, hzero (by norm_num), hnot, ?_⟩
  · rw [hnearest (by norm_num)]
    norm_num
  · rw [(ofMhz_nearest ⟨0x7fc00000⟩).2 hnot, hnone]
    rfl

/-- Positive infinity is no number, and does not give zero. -/
theorem infinity_gives_largest :
    ¬ ∀ mhz : Single, mhz.value.rational? = none → (ofMhz mhz).hz = 0 := by
  intro hzero
  have hvalue : (Single.mk 0x7f800000).value = .infinite false := by decide
  have hlargest : (ofMhz ⟨0x7f800000⟩).hz = maxHz := ofMhz_infinite hvalue
  rw [hzero _ (by rw [hvalue]; rfl)] at hlargest
  exact absurd hlargest (by decide)

end Frequency

end ChipChain
