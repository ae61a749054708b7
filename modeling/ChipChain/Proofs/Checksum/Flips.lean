import ChipChain.Proofs.Checksum.Remainder
import Mathlib.Tactic.IntervalCases

/-!
# Flipped bits

Bytes in which some bits were turned over on the way. The places of bits are numbered in
the order in which bits travel: byte by byte, the most significant bit of each byte first.
A checksum over flipped bytes differs by the remainder of the flipped places
(`of_flipFrom`), and bytes that end in their own checksum leave nothing
(`crc16_append_crc16`).
-/

namespace ChipChain.Checksum

variable {w : Nat} {s : Finset Nat} {start : Nat}

/-! ## Bits of bytes -/

theorem bitsOfByte_ofBits (b7 b6 b5 b4 b3 b2 b1 b0 : Bool) :
    bitsOfByte (UInt8.ofBitVec (BitVec.ofBoolListBE [b7, b6, b5, b4, b3, b2, b1, b0])) =
      [b7, b6, b5, b4, b3, b2, b1, b0] := by
  revert b7 b6 b5 b4 b3 b2 b1 b0
  decide +kernel

theorem bitsOfByte_xor (a b : UInt8) :
    bitsOfByte (a ^^^ b) = List.zipWith xor (bitsOfByte a) (bitsOfByte b) := by
  simp [bitsOfByte]

theorem bitsOfByte_injective : Function.Injective bitsOfByte := by
  intro a b h
  simp only [bitsOfByte, List.map_cons, List.map_nil, List.cons.injEq, and_true] at h
  obtain ⟨h7, h6, h5, h4, h3, h2, h1, h0⟩ := h
  refine UInt8.toBitVec_inj.1 (BitVec.eq_of_getLsbD_eq fun i hi => ?_)
  interval_cases i <;> assumption

theorem bitsOf_cons (byte : UInt8) (data : Bytes) :
    bitsOf (byte :: data) = bitsOfByte byte ++ bitsOf data :=
  List.flatMap_cons

theorem bitsOf_append (data more : Bytes) : bitsOf (data ++ more) = bitsOf data ++ bitsOf more :=
  List.flatMap_append

theorem length_bitsOfByte (byte : UInt8) : (bitsOfByte byte).length = 8 := rfl

theorem length_bitsOf (data : Bytes) : (bitsOf data).length = 8 * data.length := by
  induction data with
  | nil => rfl
  | cons byte data ih =>
      rw [bitsOf_cons, List.length_append, ih, length_bitsOfByte, List.length_cons]
      omega

/-! ## Flipping -/

/-- The byte with ones at those of the eight places from `start` on that lie in `s`. -/
def mask (s : Finset Nat) (start : Nat) : UInt8 :=
  UInt8.ofBitVec (BitVec.ofBoolListBE (changes s start 8))

/-- Flip the bits at the places of `s`, where the first place has the number `start`. -/
def flipFrom (s : Finset Nat) (start : Nat) : Bytes → Bytes
  | [] => []
  | byte :: rest => (byte ^^^ mask s start) :: flipFrom s (start + 8) rest

/-- Flip the bits at the places of `s`. -/
def flipAt (s : Finset Nat) (data : Bytes) : Bytes :=
  flipFrom s 0 data

theorem length_flipFrom (s : Finset Nat) (start : Nat) (data : Bytes) :
    (flipFrom s start data).length = data.length := by
  induction data generalizing start with
  | nil => rfl
  | cons byte rest ih => rw [flipFrom, List.length_cons, List.length_cons, ih]

theorem bitsOfByte_mask (s : Finset Nat) (start : Nat) :
    bitsOfByte (mask s start) = changes s start 8 :=
  bitsOfByte_ofBits _ _ _ _ _ _ _ _

theorem mask_eq_zero_iff : mask s start = 0 ↔ ∀ i ∈ s, start ≤ i → start + 8 ≤ i := by
  constructor
  · intro h i hi hfrom
    by_contra hto
    have hmem := true_mem_changes_iff.2 ⟨i, hi, hfrom, not_le.1 hto⟩
    rw [← bitsOfByte_mask, h] at hmem
    exact absurd hmem (by decide)
  · intro h
    apply bitsOfByte_injective
    rw [bitsOfByte_mask, changes_eq_replicate h]
    decide

theorem xor_mask_eq_iff {byte : UInt8} :
    byte ^^^ mask s start = byte ↔ ∀ i ∈ s, start ≤ i → start + 8 ≤ i := by
  rw [← mask_eq_zero_iff]
  constructor
  · intro h
    have hcancel := congrArg (byte ^^^ ·) h
    simpa [← UInt8.xor_assoc] using hcancel
  · intro h
    rw [h, UInt8.xor_zero]

theorem bitsOf_flipFrom (s : Finset Nat) (start : Nat) (data : Bytes) :
    bitsOf (flipFrom s start data) =
      List.zipWith xor (bitsOf data) (changes s start (8 * data.length)) := by
  induction data generalizing start with
  | nil => rfl
  | cons byte rest ih =>
      have hlength : (bitsOfByte byte).length = (changes s start 8).length := by
        rw [length_changes, length_bitsOfByte]
      rw [flipFrom, bitsOf_cons, bitsOf_cons, bitsOfByte_xor, bitsOfByte_mask, ih,
        List.length_cons, show 8 * (rest.length + 1) = 8 + 8 * rest.length by omega,
        ← changes_append, List.zipWith_append hlength]

/-! ## Checksums of flipped bytes -/

theorem of_append (c : Checksum w) (data more : Bytes) :
    c.of (data ++ more) = (bitsOf more).foldl c.shift (c.of data) := by
  rw [of, bitsOf_append, List.foldl_append, of]

theorem of_flipFrom (c : Checksum w) (s : Finset Nat) (start : Nat) (data : Bytes) :
    c.of (flipFrom s start data) =
      c.of data ^^^ c.remainder (changes s start (8 * data.length)) := by
  have hlength : (bitsOf data).length = (changes s start (8 * data.length)).length := by
    rw [length_changes, length_bitsOf]
  have hxor := foldl_shift_xor c c.start 0#w hlength
  rwa [BitVec.xor_zero, ← bitsOf_flipFrom] at hxor

theorem of_flipFrom_eq_zero_iff {c : Checksum w} {data : Bytes} (h : c.of data = 0#w) :
    c.of (flipFrom s start data) = 0#w ↔
      c.remainder (changes s start (8 * data.length)) = 0#w := by
  rw [of_flipFrom, h, BitVec.zero_xor]

/-! ## Sixteen bits -/

theorem bitsOf_ofUInt16BE (word : UInt16) :
    bitsOf (Bytes.ofUInt16BE word) = (List.range 16).map word.toBitVec.getMsbD := by
  simp [bitsOf, bitsOfByte, Bytes.ofUInt16BE, List.range_succ, BitVec.getMsbD]

theorem toBitVec_crc16 (data : Bytes) : (crc16 data).toBitVec = sixteen.of data := by
  apply BitVec.eq_of_toNat_eq
  simp [crc16]

theorem crc16_eq_zero_iff {data : Bytes} : crc16 data = 0 ↔ sixteen.of data = 0#16 := by
  rw [← UInt16.toBitVec_inj, toBitVec_crc16]
  rfl

/-- Bytes followed by their own checksum, high byte first, leave nothing. -/
theorem crc16_append_crc16 (data : Bytes) :
    crc16 (data ++ Bytes.ofUInt16BE (crc16 data)) = 0 := by
  rw [crc16_eq_zero_iff, of_append, bitsOf_ofUInt16BE, toBitVec_crc16, foldl_self]

/-! ## Five bits -/

theorem crc5Holds_iff {data : Bytes} : crc5Holds data ↔ five.of data = 0#5 := by
  rw [crc5Holds, beq_iff_eq, crc5, ← UInt8.toNat_inj, ← BitVec.toNat_inj]
  have hlt := (five.of data).isLt
  simp
  omega

end ChipChain.Checksum
