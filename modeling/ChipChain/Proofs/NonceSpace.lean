import ChipChain.NonceSpace
import ChipChain.Proofs.Address
import ChipChain.Proofs.Bits.TicketMask
import ChipChain.Proofs.Number.Exact

/-!
# Shares of the nonce space

The nonces set aside for one core are a whole number that a double holds exactly, and at the
interval of a chain the shares of all cores of all its chips fit into the space of one word
(`shares_fit`).
-/

namespace ChipChain

/-! ## Blocks -/

theorem two_pow_pred_div {m n : Nat} (h : m ≤ n) : (2 ^ n - 1) / 2 ^ m = 2 ^ (n - m) - 1 := by
  have hsplit : 2 ^ n = 2 ^ m * 2 ^ (n - m) := by
    rw [← Nat.pow_add]
    congr 1
    omega
  have hpos : 0 < 2 ^ m * 2 ^ (n - m) := Nat.mul_pos (Nat.two_pow_pos _) (Nat.two_pow_pos _)
  rw [hsplit, Nat.mul_sub_div 0 _ _ hpos, Nat.zero_div]

theorem largestPowerOfTwo_le_iff {cores : Nat} :
    largestPowerOfTwo cores ≤ 65536 ↔ cores.log2 ≤ 16 := by
  have hblocks : 65536 = 2 ^ 16 := rfl
  rw [largestPowerOfTwo_eq, hblocks, Nat.pow_le_pow_iff_right (by decide)]

/-- Both divisions at once: the blocks of a power of two that divides them all, less the one that
the range lacks at its end. -/
theorem blocksPerCore_eq (cores : Nat) :
    blocksPerCore cores =
      if largestPowerOfTwo cores ≤ 65536 then 65536 / largestPowerOfTwo cores - 1 else 0 := by
  have htogether : blocksPerCore cores = (2 ^ 32 - 1) / 2 ^ (cores.log2 + 16) := by
    rw [blocksPerCore, largestPowerOfTwo_eq, Nat.pow_add, ← Nat.div_div_eq_div_mul]
    rfl
  rw [htogether]
  split
  case isTrue hp =>
    have hlog := largestPowerOfTwo_le_iff.1 hp
    have hquotient : 65536 / largestPowerOfTwo cores = 2 ^ (16 - cores.log2) :=
      Nat.pow_div hlog (by decide : 0 < 2)
    rw [two_pow_pred_div (by omega), hquotient]
    congr 2
    omega
  case isFalse hp =>
    have hlog : 32 ≤ cores.log2 + 16 := by
      rw [largestPowerOfTwo_le_iff] at hp
      omega
    have hrange : 2 ^ 32 ≤ 2 ^ (cores.log2 + 16) := Nat.pow_le_pow_right (by decide) hlog
    exact Nat.div_eq_of_lt (by omega)

theorem blocksPerCore_lt (cores : Nat) : blocksPerCore cores < 65536 := by
  have hquotient := Nat.div_le_self 65536 (largestPowerOfTwo cores)
  rw [blocksPerCore_eq]
  split <;> omega

/-! ## The share of one core -/

/-- The nonces of one core, where the chips of its chain are an interval apart. -/
def coreShare (cores interval : Nat) : Nat :=
  if largestPowerOfTwo cores ≤ 65536 then
    (65536 / largestPowerOfTwo cores - 1) * 256 * interval
  else 0

variable {cores interval : Nat}

theorem coreShare_eq (cores interval : Nat) :
    coreShare cores interval = blocksPerCore cores * (interval * 256) := by
  rw [coreShare, blocksPerCore_eq]
  split
  · rw [Nat.mul_assoc, Nat.mul_comm 256]
  · rw [Nat.zero_mul]

theorem coreShare_lt (h : interval < 65536) : coreShare cores interval < 2 ^ 40 := by
  have hblocks := blocksPerCore_lt cores
  calc
    coreShare cores interval = blocksPerCore cores * (interval * 256) := coreShare_eq ..
    _ ≤ 65535 * (65535 * 256) := Nat.mul_le_mul (by omega) (by omega)
    _ < 2 ^ 40 := by decide

theorem toNat_shiftLeft_interval (h : interval < 65536) :
    (interval.toUInt32 <<< 8).toNat = interval * 256 := by
  have hword : interval.toUInt32.toNat = interval := Nat.mod_eq_of_lt (by omega)
  have hshift : (8 : UInt32).toNat % 32 = 8 := rfl
  rw [UInt32.toNat_shiftLeft, hword, hshift, Nat.shiftLeft_eq]
  exact Nat.mod_eq_of_lt (by omega)

theorem reservedSpaceDouble_eq (h : interval < 65536) :
    reservedSpaceDouble cores interval = wholeDouble (coreShare cores interval) := by
  have hblocks : (blocksPerCore cores).toUInt32.toNat = blocksPerCore cores :=
    Nat.mod_eq_of_lt (Nat.lt_trans (blocksPerCore_lt cores) (by decide))
  have hproduct : (blocksPerCore cores).toUInt32.toNat * (interval.toUInt32 <<< 8).toNat =
      coreShare cores interval := by
    rw [hblocks, toNat_shiftLeft_interval h, coreShare_eq]
  have hsmall : coreShare cores interval < 2 ^ 53 := Nat.lt_trans (coreShare_lt h) (by decide)
  rw [← hproduct] at hsmall ⊢
  exact toFloat_mul_toFloat hsmall

theorem rational?_reservedSpaceDouble (h : interval < 65536) :
    (BinaryValue.ofFloat (reservedSpaceDouble cores interval)).rational? =
      some (coreShare cores interval : ℚ) := by
  rw [reservedSpaceDouble_eq h]
  exact rational?_wholeDouble (Nat.lt_trans (coreShare_lt h) (by decide))

/-! ## The shares of a chain -/

/-- What the shares leave over is at least one block for each core of a chip. -/
theorem coreShares_le (hp : largestPowerOfTwo cores ≤ 65536) (chips : Nat) :
    chips * largestPowerOfTwo cores * coreShare cores (256 / chips) ≤
      2 ^ 32 - 65536 * largestPowerOfTwo cores := by
  have hdvd : largestPowerOfTwo cores ∣ 65536 :=
    Nat.pow_dvd_pow 2 (largestPowerOfTwo_le_iff.1 hp)
  have hblocks : largestPowerOfTwo cores * (65536 / largestPowerOfTwo cores - 1) =
      65536 - largestPowerOfTwo cores := by
    rw [Nat.mul_sub_one, Nat.mul_div_cancel' hdvd]
  rw [coreShare, if_pos hp]
  calc
    chips * largestPowerOfTwo cores *
          ((65536 / largestPowerOfTwo cores - 1) * 256 * (256 / chips)) =
        largestPowerOfTwo cores * (65536 / largestPowerOfTwo cores - 1) * 256 *
          (chips * (256 / chips)) := by ring
    _ ≤ (65536 - largestPowerOfTwo cores) * 256 * 256 := by
      rw [hblocks]
      exact Nat.mul_le_mul_left _ (Nat.mul_div_le 256 chips)
    _ = 2 ^ 32 - 65536 * largestPowerOfTwo cores := by omega

/-- The reserved space is a whole number, exactly: the blocks of one core times the addresses of
one chip, and nothing if there are more cores than blocks. It is found without leaving a word, and
small enough for no digit to be rounded away. On a chain with the even split, the shares of all
cores of all chips leave a block for each core of a chip. -/
theorem shares_fit (cores : Nat) (interval : UInt16) :
    (BinaryValue.ofFloat (reservedSpaceDouble cores interval.toNat)).rational? =
      some ((if largestPowerOfTwo cores ≤ 65536 then
        (65536 / largestPowerOfTwo cores - 1) * 256 * interval.toNat else 0 : ℕ) : ℚ) ∧
    coreShare cores interval.toNat < 2 ^ 40 ∧
    (0 < largestPowerOfTwo cores ∧
      (interval.toNat.toUInt32 <<< 8).toNat = interval.toNat * 256 ∧
      ∀ n : UInt32, n ≠ 0 → n.toBitVec.clz.toNat ≤ 31 ∧
        (1#32 <<< (31 - n.toBitVec.clz.toNat)).toNat = largestPowerOfTwo n.toNat) ∧
    ∀ chips, 1 ≤ chips → chips ≤ 256 → largestPowerOfTwo cores ≤ 65536 →
      ∃ share : ℕ,
        (BinaryValue.ofFloat (reservedSpaceDouble cores (addressInterval chips))).rational? =
          some (share : ℚ) ∧
        chips * largestPowerOfTwo cores * share ≤ 2 ^ 32 - 65536 * largestPowerOfTwo cores := by
  have hinterval := interval.toNat_lt
  refine ⟨rational?_reservedSpaceDouble hinterval, coreShare_lt hinterval,
    ⟨largestPowerOfTwo_pos cores, toNat_shiftLeft_interval hinterval,
      fun n hn => one_shiftLeft_clz hn⟩, ?_⟩
  intro chips hpos hle hpower
  have heven := AddressPlan.addressInterval_eq hpos hle
  have hsmall : 256 / chips < 65536 := Nat.lt_of_le_of_lt (Nat.div_le_self 256 chips) (by decide)
  refine ⟨coreShare cores (256 / chips), ?_, coreShares_le hpower chips⟩
  rw [heven]
  exact rational?_reservedSpaceDouble hsmall

/-- One chip of 128 cores. -/
example : coreShare 128 256 = 33488896 := by
  decide

end ChipChain
