import ChipChain.Bytes

/-!
# Cyclic checksums

A shift register that takes bytes most significant bit first, and the two
registers that protect frames: five bits for commands and responses, sixteen
for jobs.
-/

namespace ChipChain

/-- A shift-register checksum: its generator without the leading term, and its start. -/
structure Checksum (w : Nat) where
  /-- Coefficients of the generator polynomial below its leading term. -/
  poly : BitVec w
  /-- What the register holds before the first bit. -/
  start : BitVec w

namespace Checksum

variable {w : Nat}

/-- Take in one bit: the register moves up, and the generator is added when a one leaves it. -/
def shift (c : Checksum w) (register : BitVec w) (bit : Bool) : BitVec w :=
  if register.msb != bit then (register <<< 1) ^^^ c.poly else register <<< 1

/-- The eight bits of a byte, most significant first. -/
def bitsOfByte (byte : UInt8) : List Bool :=
  [7, 6, 5, 4, 3, 2, 1, 0].map byte.toBitVec.getLsbD

/-- The bits of a byte string in the order in which they are taken. -/
def bitsOf (data : Bytes) : List Bool :=
  data.flatMap bitsOfByte

def of (c : Checksum w) (data : Bytes) : BitVec w :=
  (bitsOf data).foldl c.shift c.start

/-- Generator `x^5 + x^2 + 1`, register full of ones. -/
def five : Checksum 5 := ⟨0x05, 0x1f⟩

/-- Generator `x^16 + x^12 + x^5 + 1`, register full of ones. -/
def sixteen : Checksum 16 := ⟨0x1021, 0xffff⟩

end Checksum

def crc5 (data : Bytes) : UInt8 :=
  UInt8.ofNat (Checksum.five.of data).toNat

def crc16 (data : Bytes) : UInt16 :=
  UInt16.ofNat (Checksum.sixteen.of data).toNat

/-- Data that ends in its own five-bit checksum leaves an empty register. -/
def crc5Holds (data : Bytes) : Bool :=
  crc5 data == 0

end ChipChain
