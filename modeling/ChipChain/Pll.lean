import ChipChain.Frequency

/-!
# Clock dividers

A chip multiplies a 25 MHz crystal by a feedback divider and divides the
product three times. This module holds the legal settings, the table with one
setting for each distinct frequency, and the lookup of the fastest setting that
does not exceed a target.
-/

namespace ChipChain

/-- One setting of the clock: crystal times `feedback`, divided by the other three. -/
structure Dividers where
  feedback : Nat
  reference : Nat
  post1 : Nat
  post2 : Nat
  deriving DecidableEq, Repr, Inhabited

namespace Dividers

/-- The crystal, in megahertz. -/
def crystalMhz : Nat := 25

/-- The oscillator never runs faster than this many megahertz. -/
def maxOscillatorMhz : Nat := 3000

/-- The output stays below this many megahertz. -/
def maxOutputMhz : Nat := 1500

def divisor (d : Dividers) : Nat :=
  d.reference * d.post1 * d.post2

structure Legal (d : Dividers) : Prop where
  feedback_ge : 160 ≤ d.feedback
  feedback_le : d.feedback ≤ 239
  reference_mem : d.reference = 1 ∨ d.reference = 2
  post2_pos : 1 ≤ d.post2
  post2_le : d.post2 ≤ d.post1
  post1_le : d.post1 ≤ 7
  oscillator_le : crystalMhz * d.feedback ≤ maxOscillatorMhz * d.reference
  output_lt : crystalMhz * d.feedback < maxOutputMhz * d.divisor

/-- The exact output, in hertz, as a numerator over `divisor`. -/
def outputNumerator (d : Dividers) : Nat :=
  crystalMhz * 1000000 * d.feedback

/-- The output in whole hertz, halves going up. -/
def frequency (d : Dividers) : Frequency :=
  let common := Nat.gcd d.feedback d.divisor
  let num := d.feedback / common
  let den := d.divisor / common
  ⟨(crystalMhz * 1000000 * num + den / 2) / den⟩

/-- The oscillator in megahertz, single precision. -/
def oscillatorMhz (d : Dividers) : Single :=
  Single.ofRatio (crystalMhz * d.feedback) d.reference

/-- Among settings of one frequency the slowest oscillator is best, then the smallest dividers. -/
def rank (d : Dividers) : List Nat :=
  [d.feedback * 2 / d.reference, d.reference, d.post1, d.post2, d.feedback]

def sameOutput (d e : Dividers) : Bool :=
  d.feedback * e.divisor == e.feedback * d.divisor

/-- Slower outputs come first; settings of one output stand in order of rank. -/
def precedes (d e : Dividers) : Bool :=
  let left := d.feedback * e.divisor
  let right := e.feedback * d.divisor
  left < right || (left == right && !e.rank.lex d.rank fun m n => m < n)

def candidates : List Dividers :=
  [1, 2].flatMap fun reference =>
    (List.range' 1 7).flatMap fun post1 =>
      (List.range' 1 post1).flatMap fun post2 =>
        (List.range' 160 80).filterMap fun feedback =>
          let d : Dividers := ⟨feedback, reference, post1, post2⟩
          if crystalMhz * feedback ≤ maxOscillatorMhz * reference ∧
              crystalMhz * feedback < maxOutputMhz * d.divisor then some d
          else none

/-- Keep the first of every run of settings with one output. -/
def firstOfRuns : List Dividers → List Dividers
  | [] => []
  | [d] => [d]
  | d :: e :: rest =>
    if d.sameOutput e then firstOfRuns (d :: rest) else d :: firstOfRuns (e :: rest)
termination_by settings => settings.length

/-- The best setting of every distinct output, slowest first. -/
def table : List Dividers :=
  firstOfRuns (candidates.mergeSort precedes)

/-- The fastest setting whose frequency does not exceed the target. -/
def lookup (target : Frequency) : Option Dividers :=
  (table.filter fun d => d.frequency.hz ≤ target.hz).getLast?

end Dividers

end ChipChain
