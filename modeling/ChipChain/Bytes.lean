/-!
# Byte strings

Bytes as lists, both byte orders of machine words, and hexadecimal text.
-/

namespace ChipChain

abbrev Bytes := List UInt8

namespace Bytes

/-- The two bytes of a word, most significant first. -/
def ofUInt16BE (word : UInt16) : Bytes :=
  [(word >>> 8).toUInt8, word.toUInt8]

/-- The four bytes of a word, most significant first. -/
def ofUInt32BE (word : UInt32) : Bytes :=
  [(word >>> 24).toUInt8, (word >>> 16).toUInt8, (word >>> 8).toUInt8, word.toUInt8]

/-- The four bytes of a word, least significant first. -/
def ofUInt32LE (word : UInt32) : Bytes :=
  [word.toUInt8, (word >>> 8).toUInt8, (word >>> 16).toUInt8, (word >>> 24).toUInt8]

def toUInt16BE (high low : UInt8) : UInt16 :=
  (high.toUInt16 <<< 8) ||| low.toUInt16

def toUInt32BE (b3 b2 b1 b0 : UInt8) : UInt32 :=
  (b3.toUInt32 <<< 24) ||| (b2.toUInt32 <<< 16) ||| (b1.toUInt32 <<< 8) ||| b0.toUInt32

def toUInt32LE (b0 b1 b2 b3 : UInt8) : UInt32 :=
  toUInt32BE b3 b2 b1 b0

/-! ## Hexadecimal text -/

def hexDigit (n : Nat) : Char :=
  if n < 10 then Char.ofNat (n + 48) else Char.ofNat (n + 87)

/-- The last `width` hexadecimal digits of a number, leading zeros kept. -/
def hexDigits : (width : Nat) → Nat → List Char
  | 0, _ => []
  | width + 1, n => hexDigits width (n / 16) ++ [hexDigit (n % 16)]

/-- The number of hexadecimal digits a number needs; zero needs one. -/
def hexWidth (n : Nat) : Nat :=
  n.log2 / 4 + 1

def toHex (bytes : Bytes) : String :=
  String.ofList (bytes.flatMap fun b => hexDigits 2 b.toNat)

/-- A number after `0x`, padded with zeros to at least `width` digits. -/
def hexNumber (width n : Nat) : String :=
  "0x" ++ String.ofList (hexDigits (max width (hexWidth n)) n)

end Bytes

end ChipChain
