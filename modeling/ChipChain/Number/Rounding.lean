/-!
# Rounded quotients

A quotient of natural numbers brought to the nearest natural number, with the
two ways a tie can go.
-/

namespace ChipChain

/-- Which neighbour a quotient exactly between two whole numbers goes to. -/
inductive Tie where
  | up
  | even
  deriving DecidableEq, Repr

/-- The natural number nearest to `num / den`. -/
def roundDiv (tie : Tie) (num den : Nat) : Nat :=
  let low := num / den
  let twice := 2 * (num % den)
  if twice < den then low
  else if den < twice then low + 1
  else
    match tie with
    | .up => low + 1
    | .even => if low % 2 = 0 then low else low + 1

end ChipChain
