import ChipChain.Number.Binary

/-!
# Decimal text of floating-point numbers

The fewest decimal digits that read back as the same number, found by trying
one digit, then two, and so on in exact arithmetic; the two layouts that log
fields and frequencies use; and reading a decimal number.
-/

namespace ChipChain

/-- A positive decimal `digits * 10 ^ exponent`. -/
structure Decimal where
  digits : Nat
  /-- The power of ten of the last digit. -/
  exponent : Int
  deriving DecidableEq, Repr

namespace Decimal

def width (n : Nat) : Nat :=
  (Nat.toDigits 10 n).length

/-- The scale on which a number with last place `10 ^ k` is whole: multiply by the first, divide
by the second. -/
def scale : Int → Nat × Nat
  | .ofNat up => (1, Nat.pow 10 up)
  | .negSucc down => (Nat.pow 10 (down + 1), 1)

/-- The reals that round to a number: four times its significand less `below`, plus two. A number
that starts a new power of two is twice as close to its lower neighbour. -/
structure Interval where
  centre : Nat
  /-- Distance to the lower end. -/
  below : Nat
  exponent : Int
  /-- Both ends belong to the interval exactly if the significand is even. -/
  closed : Bool

/-- The interval of a positive number of a format. -/
def Interval.of (f : BinaryFormat) (significand : Nat) (exponent : Int) : Interval where
  centre := 4 * significand
  below := if significand = Nat.pow 2 f.fractionBits ∧ f.leastExponent < exponent then 1 else 2
  exponent := exponent - 2
  closed := significand % 2 == 0

/-- The best multiple of `10 ^ k` in the interval, if one of the centre's two neighbours is. -/
def Interval.best? (i : Interval) (k : Int) : Option Nat :=
  let (up, down) := scale k
  let (p, q) := ratioOf 1 i.exponent
  -- All quantities are counted in units of `1 / (q * down)`.
  let unit := q * down
  let centre := i.centre * p * up
  let low := (i.centre - i.below) * p * up
  let high := (i.centre + 2) * p * up
  let inside (g : Nat) : Bool :=
    if i.closed then low ≤ g * unit && g * unit ≤ high else low < g * unit && g * unit < high
  let floor := centre / unit
  match inside floor && floor != 0, inside (floor + 1) with
  | true, true => some (if centre - floor * unit ≤ (floor + 1) * unit - centre then floor else floor + 1)
  | true, false => some floor
  | false, true => some (floor + 1)
  | false, false => none

/-- The power of ten at or just below a positive ratio, give or take one place. -/
def magnitude (num den : Nat) : Int :=
  (width num : Int) - (width den : Int)

/-- Try ever finer grids, from `k` down, until one has a point in the interval. -/
def Interval.search (i : Interval) : (tries : Nat) → (k : Int) → Decimal
  | 0, k => ⟨0, k⟩
  | tries + 1, k =>
    match i.best? k with
    | some digits => ⟨digits, k⟩
    | none => i.search tries (k - 1)

def trim (digits : Nat) (exponent : Int) : (tries : Nat) → Decimal
  | 0 => ⟨digits, exponent⟩
  | tries + 1 =>
    if digits ≠ 0 ∧ digits % 10 = 0 then trim (digits / 10) (exponent + 1) tries
    else ⟨digits, exponent⟩

/-- The shortest decimal that reads back as `significand * 2 ^ exponent`. A grid twenty places
below the number's own magnitude is finer than any format here, so the search always ends in a hit. -/
def shortest (f : BinaryFormat) (significand : Nat) (exponent : Int) : Decimal :=
  let (num, den) := ratioOf significand exponent
  let d := (Interval.of f significand exponent).search 24 (magnitude num den + 1)
  trim d.digits d.exponent 24

end Decimal

/-! ## Layouts -/

/-- A whole number of `10 ^ -places`, written with a point. -/
def fixedText (places n : Nat) : String :=
  let digits := (Nat.toDigits 10 (n % Nat.pow 10 places))
  toString (n / Nat.pow 10 places) ++ "." ++
    String.ofList (List.replicate (places - digits.length) '0' ++ digits)

/-- How a log field lays a number out. -/
structure NumberLayout where
  /-- Numbers from `10 ^ upper` on get an exponent. -/
  upper : Int
  /-- Numbers below `10 ^ lower` get an exponent. -/
  lower : Int
  mark : String
  undefined : String
  infinite : String

/-- Log fields: positional from `10 ^ -4` up to `10 ^ 16`, always with a point there. -/
def NumberLayout.log : NumberLayout := ⟨16, -4, "e", "NaN", "inf"⟩

namespace NumberLayout

/-- Digits with a point after the first `point` of them, zeros filled in on either side. -/
def positional (digits : List Char) (point : Int) : String :=
  if point ≤ 0 then
    "0." ++ String.ofList (List.replicate (-point).toNat '0' ++ digits)
  else
    let whole := point.toNat
    if digits.length ≤ whole then
      String.ofList (digits ++ List.replicate (whole - digits.length) '0') ++ ".0"
    else
      String.ofList (digits.take whole) ++ "." ++ String.ofList (digits.drop whole)

/-- One digit, a point if more follow, and the exponent. -/
def scientific (layout : NumberLayout) (digits : List Char) (point : Int) : String :=
  let rest := digits.drop 1
  String.ofList (digits.take 1) ++ (if rest.isEmpty then "" else "." ++ String.ofList rest) ++
    layout.mark ++ toString (point - 1)

def text (layout : NumberLayout) (f : BinaryFormat) : BinaryValue → String
  | .undefined => layout.undefined
  | .infinite negative => (if negative then "-" else "") ++ layout.infinite
  | .finite negative significand exponent =>
    (if negative then "-" else "") ++
      if significand = 0 then "0.0"
      else
        let d := Decimal.shortest f significand exponent
        let digits := Nat.toDigits 10 d.digits
        let point := (digits.length : Int) + d.exponent
        if layout.lower < point && point ≤ layout.upper then positional digits point
        else layout.scientific digits point

end NumberLayout

/-- The text of a number in a log field. -/
def logNumber (x : Float) : String :=
  NumberLayout.log.text .double (BinaryValue.ofFloat x)

/-! ## Reading -/

/-- A decimal number in text: optional sign, digits with at most one point among them, optional
exponent; or `inf`, `infinity` or `nan` in any case. -/
inductive DecimalText where
  | number (negative : Bool) (digits : Nat) (exponent : Int)
  | infinite (negative : Bool)
  | undefined
  deriving DecidableEq, Repr

namespace DecimalText

def natOf (digits : List Char) : Nat :=
  digits.foldl (fun n c => 10 * n + (c.toNat - 48)) 0

def splitSign : List Char → Bool × List Char
  | '-' :: rest => (true, rest)
  | '+' :: rest => (false, rest)
  | rest => (false, rest)

/-- The exponent after the mark: an optional sign and at least one digit, nothing after them. -/
def exponent? (text : List Char) : Option Int :=
  let (negative, digits) := splitSign text
  if digits.isEmpty || !digits.all Char.isDigit then none
  else some (if negative then -(natOf digits : Int) else natOf digits)

/-- Read a decimal number; `none` if the text is not one. -/
def read? (text : List Char) : Option DecimalText :=
  let (negative, body) := splitSign text
  let lower := body.map Char.toLower
  if lower = "inf".toList || lower = "infinity".toList then some (.infinite negative)
  else if lower = "nan".toList then some .undefined
  else
    let whole := body.takeWhile Char.isDigit
    let rest := body.dropWhile Char.isDigit
    let (fraction, rest) :=
      match rest with
      | '.' :: rest => (rest.takeWhile Char.isDigit, rest.dropWhile Char.isDigit)
      | _ => ([], rest)
    if whole.isEmpty && fraction.isEmpty then none
    else
      let digits := natOf (whole ++ fraction)
      match rest with
      | [] => some (.number negative digits (-(fraction.length : Int)))
      | mark :: rest =>
        if mark = 'e' || mark = 'E' then
          (exponent? rest).map fun e => .number negative digits (e - fraction.length)
        else none

/-- Past this power of ten every nonzero number with fewer digits is out of a format's range. -/
def farAway : Nat := 1000

def toSingle : DecimalText → Single
  | .undefined => ⟨0x7fc00000⟩
  | .infinite negative => ⟨if negative then 0xff800000 else 0x7f800000⟩
  | .number negative digits exponent =>
    let sign : UInt32 := if negative then 0x80000000 else 0
    let point := (Decimal.width digits : Int) + exponent
    let magnitude : UInt32 :=
      if digits = 0 || point < -farAway then 0
      else if farAway < point then 0x7f800000
      else
        let (up, down) := Decimal.scale exponent
        (Single.ofRatio (digits * down) up).bits
    ⟨sign ||| magnitude⟩

end DecimalText

end ChipChain
