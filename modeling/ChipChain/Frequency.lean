import ChipChain.Number.Decimal

/-!
# Frequencies

Whole numbers of hertz, with the conversions to and from megahertz that
settings and log fields use.
-/

namespace ChipChain

structure Frequency where
  hz : Nat
  deriving DecidableEq, Repr, Inhabited

namespace Frequency

def maxHz : Nat := Nat.pow 2 64 - 1

/-- A whole number of kilohertz. -/
def ofKhz (khz : Nat) : Frequency :=
  ⟨khz * 1000⟩

/-- A number of megahertz in hertz, in double precision. -/
def hertzDouble (mhz : Single) : Float :=
  mhz.toFloat * 1000000.0

/-- The whole number of hertz nearest to a number of megahertz, halves going up. Numbers below zero
and what is no number become zero; numbers past the largest frequency become the largest. -/
def ofMhz (mhz : Single) : Frequency :=
  ⟨(BinaryValue.ofFloat (hertzDouble mhz)).nearestWhole maxHz⟩

/-- Whole kilohertz, as far as thirty-two bits hold them. -/
def khz (f : Frequency) : Nat :=
  f.hz / 1000 % Nat.pow 2 32

/-- Megahertz in double precision. -/
def mhzDouble (f : Frequency) : Float :=
  f.hz.toUInt64.toFloat / 1000000.0

/-- Megahertz in single precision, rounded once more from double precision. -/
def mhz (f : Frequency) : Single :=
  Single.ofFloat32 f.mhzDouble.toFloat32

def absDiff (f g : Frequency) : Frequency :=
  ⟨(f.hz - g.hz) + (g.hz - f.hz)⟩

/-- Megahertz with two places; a tie goes to the even last digit. -/
def text (f : Frequency) : String :=
  match BinaryValue.ofFloat f.mhzDouble with
  | .finite _ significand exponent =>
    let (num, den) := ratioOf significand exponent
    fixedText 2 (roundDiv .even (num * 100) den) ++ " MHz"
  | _ => ""

end Frequency

end ChipChain
