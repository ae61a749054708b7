import ChipChain.Proofs.Wire.Damage

/-!
# Sealed responses

A register is emptied by its own bits and by no others of their number
(`Checksum.foldl_eq_zero_iff`). So in the byte that ends a response the three upper bits are free,
and what comes before them together with them settles the five lower ones
(`Response.sealed_once`).
-/

namespace ChipChain

namespace Checksum

/-! ## Emptying a register -/

theorem eq_of_true_notMem_zipWith_xor {bits others : List Bool}
    (hlength : bits.length = others.length) (h : true ∉ List.zipWith xor bits others) :
    bits = others := by
  induction bits generalizing others with
  | nil => exact (List.length_eq_zero_iff.1 hlength.symm).symm
  | cons bit bits ih =>
      obtain ⟨other, others, rfl⟩ := List.exists_cons_of_length_eq_add_one hlength.symm
      rw [List.zipWith_cons_cons, List.mem_cons, not_or] at h
      have hfirst : bit = other := by
        cases bit <;> cases other <;> simp_all
      rw [hfirst, ih (by simpa using hlength) h.2]

variable {w : Nat} {c : Checksum w}

/-- A register is emptied by its own bits, and by no others of their number. -/
theorem foldl_eq_zero_iff (hunit : c.poly.getLsbD 0 = true) {register : BitVec w}
    {bits : List Bool} (hlength : bits.length = w) :
    bits.foldl c.shift register = 0#w ↔ bits = (List.range w).map register.getMsbD := by
  have hsame : bits.length = ((List.range w).map register.getMsbD).length := by simp [hlength]
  constructor
  · intro hzero
    -- Where the bits are not the register's own, that difference alone leaves nothing.
    have hxor := foldl_shift_xor c register register hsame
    rw [hzero, foldl_self, BitVec.xor_self, BitVec.xor_self] at hxor
    refine eq_of_true_notMem_zipWith_xor hsame fun hmem => ?_
    exact remainder_ne_zero hunit (by simp [hlength]) hmem hxor
  · rintro rfl
    exact foldl_self c register

theorem map_getMsbD_injective :
    Function.Injective fun x : BitVec w => (List.range w).map x.getMsbD := by
  intro x y h
  refine BitVec.eq_of_getMsbD_eq fun i hi => ?_
  exact List.map_inj_left.1 h i (List.mem_range.2 hi)

/-! ## The two parts of a byte -/

def upperBits (byte : UInt8) : BitVec 3 :=
  byte.toBitVec.extractLsb' 5 3

def lowerBits (byte : UInt8) : BitVec 5 :=
  byte.toBitVec.extractLsb' 0 5

/-- The byte with given upper and lower bits. -/
def joined (upper : BitVec 3) (lower : BitVec 5) : UInt8 :=
  .ofBitVec (upper ++ lower)

theorem bitsOfByte_eq (byte : UInt8) :
    bitsOfByte byte = (List.range 3).map (upperBits byte).getMsbD ++
      (List.range 5).map (lowerBits byte).getMsbD := by
  simp [bitsOfByte, upperBits, lowerBits, List.range_succ, BitVec.getMsbD]

theorem upperBits_joined (upper : BitVec 3) (lower : BitVec 5) :
    upperBits (joined upper lower) = upper :=
  BitVec.extractLsb'_append_eq_left

theorem lowerBits_joined (upper : BitVec 3) (lower : BitVec 5) :
    lowerBits (joined upper lower) = lower :=
  BitVec.extractLsb'_append_eq_right

theorem eq_of_bits {a b : UInt8} (hupper : upperBits a = upperBits b)
    (hlower : lowerBits a = lowerBits b) : a = b := by
  apply bitsOfByte_injective
  rw [bitsOfByte_eq, bitsOfByte_eq, hupper, hlower]

/-! ## The last byte -/

/-- What the lower bits of a last byte must be: what body and upper bits leave in the register. -/
def sealing (body : Bytes) (upper : BitVec 3) : BitVec 5 :=
  ((List.range 3).map upper.getMsbD).foldl five.shift (five.of body)

theorem crc5Holds_append_iff {body : Bytes} {byte : UInt8} :
    crc5Holds (body ++ [byte]) ↔ lowerBits byte = sealing body (upperBits byte) := by
  have hbits : bitsOf [byte] = bitsOfByte byte := by simp [bitsOf]
  have hfull : ((List.range 5).map (lowerBits byte).getMsbD).length = 5 := rfl
  rw [crc5Holds_iff, of_append, hbits, bitsOfByte_eq, List.foldl_append,
    foldl_eq_zero_iff five_unit hfull, map_getMsbD_injective.eq_iff, sealing]

end Checksum

open Checksum

namespace Response

theorem check_append_iff {body : Bytes} {byte : UInt8} :
    check (preamble ++ body ++ [byte]) (body.length + 3) = .ok () ↔
      crc5Holds (body ++ [byte]) = true := by
  have hlength : body.length + 3 = (preamble ++ (body ++ [byte])).length := by
    simp [preamble]
  rw [List.append_assoc, hlength, check_preamble_append, crc5Holds_iff]
  split <;> simp [*]

/-- After every body there is, for any choice of the three upper bits, exactly one last byte with
which the checksum holds, and with just this one the response is accepted. -/
theorem sealed_once (body : Bytes) (upper : BitVec 3) :
    ∃ last : UInt8, ∀ byte : UInt8,
      (upperBits byte = upper ∧ crc5Holds (body ++ [byte]) = true ↔ byte = last) ∧
      (upperBits byte = upper ∧
          check (preamble ++ body ++ [byte]) (body.length + 3) = .ok () ↔
        byte = last) := by
  refine ⟨joined upper (sealing body upper), fun byte => ?_⟩
  have honce : upperBits byte = upper ∧ crc5Holds (body ++ [byte]) = true ↔
      byte = joined upper (sealing body upper) := by
    rw [crc5Holds_append_iff]
    constructor
    · rintro ⟨rfl, hlower⟩
      exact eq_of_bits (upperBits_joined ..).symm (hlower.trans (lowerBits_joined ..).symm)
    · rintro rfl
      rw [upperBits_joined, lowerBits_joined]
      exact ⟨rfl, rfl⟩
  rw [check_append_iff]
  exact ⟨honce, honce⟩

end Response

end ChipChain
