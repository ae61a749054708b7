/-!
# Whole numbers in text

Decimal digits after an optional sign, read up to a limit. The leftmost fault
decides what is wrong with a text.
-/

namespace ChipChain

/-- What is wrong with the text of a whole number. -/
inductive WholeFault where
  | empty
  | badDigit
  | tooLarge
  | tooSmall
  | outside (number : Int) (limit : Nat)
  deriving DecidableEq, Repr

def WholeFault.message : WholeFault → String
  | empty => "cannot parse integer from empty string"
  | badDigit => "invalid digit found in string"
  | tooLarge => "number too large to fit in target type"
  | tooSmall => "number too small to fit in target type"
  | outside number limit => s!"{number} is not in 0..={limit}"

namespace Whole

/-- Read digits after those already read, as long as the number stays within a limit. -/
def digits (limit : Nat) (beyond : WholeFault) : (read : Nat) → List Char → Except WholeFault Nat
  | read, [] => .ok read
  | read, c :: rest =>
    if c.isDigit then
      let read := 10 * read + (c.toNat - 48)
      if limit < read then .error beyond else digits limit beyond read rest
    else .error .badDigit

def someDigits (limit : Nat) (beyond : WholeFault) : List Char → Except WholeFault Nat
  | [] => .error .badDigit
  | text => digits limit beyond 0 text

/-- Read a number of `bits` bits without a sign; a plus may stand in front. -/
def unsigned (bits : Nat) : List Char → Except WholeFault Nat
  | [] => .error .empty
  | '+' :: rest => someDigits (Nat.pow 2 bits - 1) .tooLarge rest
  | text => someDigits (Nat.pow 2 bits - 1) .tooLarge text

/-- Read a number of `bits` bits with a sign. -/
def signed (bits : Nat) : List Char → Except WholeFault Int
  | [] => .error .empty
  | '-' :: rest => do return -((← someDigits (Nat.pow 2 (bits - 1)) .tooSmall rest) : Int)
  | '+' :: rest => do return (← someDigits (Nat.pow 2 (bits - 1) - 1) .tooLarge rest)
  | text => do return (← someDigits (Nat.pow 2 (bits - 1) - 1) .tooLarge text)

/-- Read a number from zero to a limit; a number of 64 bits outside is named in the fault. -/
def upTo (limit : Nat) (text : List Char) : Except WholeFault Nat := do
  let number ← signed 64 text
  if 0 ≤ number ∧ number ≤ limit then return number.toNat else .error (.outside number limit)

end Whole

end ChipChain
