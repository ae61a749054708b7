import ChipChain.Frequency
import ChipChain.Text.Quoted
import ChipChain.Text.Blank

/-!
# Chip models

The chips that a chain can be made of, what is fixed for each of them, and how
a model is named in settings.
-/

namespace ChipChain

inductive Model where
  | bm1397
  | bm1366
  | bm1368
  | bm1370
  deriving DecidableEq, Repr, Inhabited

/-- What is fixed for all chips of a model. -/
structure Family where
  model : Model
  chipId : UInt16
  identityLength : Nat
  resultLength : Nat
  coreCount : Nat
  /-- Distance between consecutive job identifiers. -/
  jobIdStep : UInt8
  maxBaud : Nat
  defaultFrequency : Frequency
  defaultVoltage : UInt16
  defaultDifficulty : UInt32
  deriving Repr, Inhabited

namespace Model

/-- Every model, in the order in which names are tried. -/
def all : List Model := [.bm1397, .bm1366, .bm1368, .bm1370]

def name : Model → String
  | .bm1397 => "BM1397"
  | .bm1366 => "BM1366"
  | .bm1368 => "BM1368"
  | .bm1370 => "BM1370"

def family : Model → Family
  | .bm1397 => ⟨.bm1397, 0x1397, 9, 9, 168, 4, 3125000, .ofKhz 425000, 1400, 256⟩
  | .bm1366 => ⟨.bm1366, 0x1366, 11, 11, 112, 8, 1000000, .ofKhz 485000, 1200, 256⟩
  | .bm1368 => ⟨.bm1368, 0x1368, 11, 11, 80, 24, 1000000, .ofKhz 490000, 1166, 256⟩
  | .bm1370 => ⟨.bm1370, 0x1370, 11, 11, 128, 24, 1000000, .ofKhz 525000, 1150, 256⟩

structure Unknown where
  name : String
  deriving DecidableEq, Repr

def Unknown.message (e : Unknown) : String :=
  "unknown ASIC model " ++ Quoted.text e.name

/-- The model of this name; blanks around the name and the case of its letters do not matter. -/
def parse (text : String) : Except Unknown Model :=
  let wanted := (Blank.trim text.toList).map Char.toLower
  match all.find? fun model => model.name.toList.map Char.toLower == wanted with
  | some model => .ok model
  | none => .error ⟨text⟩

end Model

end ChipChain
