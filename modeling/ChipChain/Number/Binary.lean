import ChipChain.Number.Rounding

/-!
# Binary floating-point words

What a floating-point word says, as an exact `significand * 2 ^ exponent`, and
the word nearest to an exact ratio. Both word sizes are one record: how many
bits hold the fraction and how many the exponent.
-/

namespace ChipChain

/-- A floating-point layout: a sign bit, then the exponent field, then the fraction field. -/
structure BinaryFormat where
  fractionBits : Nat
  exponentBits : Nat

inductive BinaryValue where
  /-- The number `± significand * 2 ^ exponent`. -/
  | finite (negative : Bool) (significand : Nat) (exponent : Int)
  | infinite (negative : Bool)
  | undefined
  deriving DecidableEq, Repr

/-- The ratio `significand * 2 ^ exponent`, as a numerator and a denominator. -/
def ratioOf (significand : Nat) (exponent : Int) : Nat × Nat :=
  match exponent with
  | .ofNat up => (significand * Nat.pow 2 up, 1)
  | .negSucc down => (significand, Nat.pow 2 (down + 1))

/-- The whole number from zero to a limit that is nearest to a value, halves going up. What is no
number becomes zero. -/
def BinaryValue.nearestWhole (limit : Nat) : BinaryValue → Nat
  | .undefined => 0
  | .infinite negative => if negative then 0 else limit
  | .finite negative significand exponent =>
    if negative then 0
    else
      let (num, den) := ratioOf significand exponent
      min limit (roundDiv .up num den)

/-- The largest power of two at most `num / den`, as an exponent; both must be positive. -/
def floorLog2 (num den : Nat) : Int :=
  let guess : Int := num.log2 - den.log2
  let reached : Bool :=
    match guess with
    | .ofNat up => den * Nat.pow 2 up ≤ num
    | .negSucc down => den ≤ num * Nat.pow 2 (down + 1)
  if reached then guess else guess - 1

namespace BinaryFormat

def single : BinaryFormat := ⟨23, 8⟩

def double : BinaryFormat := ⟨52, 11⟩

/-- The exponent of the last place of the smallest numbers. -/
def leastExponent (f : BinaryFormat) : Int :=
  2 - Int.pow 2 (f.exponentBits - 1) - f.fractionBits

def infinityBits (f : BinaryFormat) : Nat :=
  (Nat.pow 2 f.exponentBits - 1) * Nat.pow 2 f.fractionBits

/-- Read a word. Words with an empty exponent field have no hidden leading one. -/
def read (f : BinaryFormat) (bits : Nat) : BinaryValue :=
  let negative := bits / Nat.pow 2 (f.fractionBits + f.exponentBits) % 2 == 1
  let field := bits / Nat.pow 2 f.fractionBits % Nat.pow 2 f.exponentBits
  let fraction := bits % Nat.pow 2 f.fractionBits
  if field = 0 then .finite negative fraction f.leastExponent
  else if field = Nat.pow 2 f.exponentBits - 1 then
    if fraction = 0 then .infinite negative else .undefined
  else .finite negative (Nat.pow 2 f.fractionBits + fraction) (f.leastExponent + field - 1)

/-- The word of the number nearest to `num / den`, ties going to the even significand. Past the
largest number the answer is infinity. -/
def nearest (f : BinaryFormat) (num den : Nat) : Nat :=
  if num = 0 then 0
  else
    let exponent := max f.leastExponent (floorLog2 num den - f.fractionBits)
    let significand :=
      match exponent with
      | .ofNat up => roundDiv .even num (den * Nat.pow 2 up)
      | .negSucc down => roundDiv .even (num * Nat.pow 2 (down + 1)) den
    let bits := (exponent - f.leastExponent).toNat * Nat.pow 2 f.fractionBits + significand
    min bits f.infinityBits

def signBits (f : BinaryFormat) (negative : Bool) : Nat :=
  if negative then Nat.pow 2 (f.fractionBits + f.exponentBits) else 0

/-- The word of a value, or of the number nearest to it. -/
def write (f : BinaryFormat) : BinaryValue → Nat
  | .undefined => f.infinityBits + Nat.pow 2 (f.fractionBits - 1)
  | .infinite negative => f.signBits negative + f.infinityBits
  | .finite negative significand exponent =>
    let (num, den) := ratioOf significand exponent
    f.signBits negative + f.nearest num den

end BinaryFormat

/-! ## Single words -/

/-- A thirty-two bit floating-point word, kept as its bits. -/
structure Single where
  bits : UInt32
  deriving DecidableEq, Repr

namespace Single

def value (x : Single) : BinaryValue :=
  BinaryFormat.single.read x.bits.toNat

/-- The word nearest to `num / den`. -/
def ofRatio (num den : Nat) : Single :=
  ⟨UInt32.ofNat (BinaryFormat.single.nearest num den)⟩

/-- A number that is zero, of either sign, or above. -/
def isNonneg (x : Single) : Bool :=
  match x.value with
  | .finite negative significand _ => !negative || significand == 0
  | .infinite negative => !negative
  | .undefined => false

def isPositive (x : Single) : Bool :=
  match x.value with
  | .finite negative significand _ => !negative && significand != 0
  | .infinite negative => !negative
  | .undefined => false

/-- The same value in double precision. -/
def toFloat (x : Single) : Float :=
  .ofBits (.ofNat (BinaryFormat.double.write x.value))

def ofFloat32 (x : Float32) : Single :=
  ⟨x.toBits⟩

end Single

def BinaryValue.ofFloat (x : Float) : BinaryValue :=
  BinaryFormat.double.read x.toBits.toNat

end ChipChain
