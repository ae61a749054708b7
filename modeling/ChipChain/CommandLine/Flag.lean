import ChipChain.Number.Decimal
import ChipChain.Number.Whole
import ChipChain.Settings.Store

/-!
# Options of the program

Each option takes one value, from the command line or from an environment
variable. A draft holds the values read so far.
-/

namespace ChipChain.CommandLine

inductive Flag where
  | port
  | baud
  | model
  | frequency
  | chips
  | difficulty
  | voltage
  | jobInterval
  | listen
  deriving DecidableEq, Repr

namespace Flag

/-- All options, in the order in which the environment is asked for them. -/
def all : List Flag :=
  [port, baud, model, frequency, chips, difficulty, voltage, jobInterval, listen]

def long : Flag → String
  | port => "port"
  | baud => "baud"
  | model => "model"
  | frequency => "frequency"
  | chips => "chips"
  | difficulty => "difficulty"
  | voltage => "voltage"
  | jobInterval => "job-interval"
  | listen => "listen"

def letter? : Flag → Option Char
  | port => some 'p'
  | baud => some 'b'
  | model => some 'm'
  | frequency => some 'f'
  | chips => some 'c'
  | difficulty => some 'd'
  | voltage => none
  | jobInterval => none
  | listen => some 'l'

def variableName? : Flag → Option String
  | port => some "BM13XX_PORT"
  | baud => none
  | model => some "BM13XX_MODEL"
  | frequency => some "BM13XX_FREQUENCY"
  | chips => some "BM13XX_CHIPS"
  | difficulty => some "BM13XX_DIFFICULTY"
  | voltage => some "BM13XX_VOLTAGE"
  | jobInterval => some "BM13XX_JOB_INTERVAL_MS"
  | listen => none

def placeholder (f : Flag) : String :=
  String.ofList (f.long.toList.map fun c => if c = '-' then '_' else c.toUpper)

/-- The option with its value, as messages name it. -/
def usage (f : Flag) : String :=
  s!"--{f.long} <{f.placeholder}>"

def ofLong? (name : String) : Option Flag :=
  all.find? fun f => f.long = name

def ofLetter? (letter : Char) : Option Flag :=
  all.find? fun f => f.letter? = some letter

end Flag

inductive ValueFault where
  | whole (fault : WholeFault)
  | noNumber
  | badNumber
  deriving DecidableEq, Repr

def ValueFault.message : ValueFault → String
  | whole fault => fault.message
  | noNumber => "cannot parse float from empty string"
  | badNumber => "invalid float literal"

/-- The values read so far, each under the name of its option. -/
structure Draft where
  port : Option String := none
  baud : Option UInt32 := none
  model : Option String := none
  frequency : Option Single := none
  chips : Option UInt16 := none
  difficulty : Option UInt16 := none
  voltage : Option UInt16 := none
  jobInterval : Option UInt16 := none
  listen : Option UInt64 := none
  deriving DecidableEq, Repr

def readWord (text : String) : Except ValueFault UInt16 :=
  ((Whole.upTo 65535 text.toList).map UInt16.ofNat).mapError .whole

def readNumber (text : String) : Except ValueFault Single :=
  if text.isEmpty then .error .noNumber
  else
    match DecimalText.read? text.toList with
    | some number => .ok number.toSingle
    | none => .error .badNumber

namespace Draft

def has (d : Draft) : Flag → Bool
  | .port => d.port.isSome
  | .baud => d.baud.isSome
  | .model => d.model.isSome
  | .frequency => d.frequency.isSome
  | .chips => d.chips.isSome
  | .difficulty => d.difficulty.isSome
  | .voltage => d.voltage.isSome
  | .jobInterval => d.jobInterval.isSome
  | .listen => d.listen.isSome

def set (d : Draft) (text : String) : Flag → Except ValueFault Draft
  | .port => .ok { d with port := some text }
  | .baud => do
    let baud ← (Whole.upTo 4294967295 text.toList).mapError .whole
    return { d with baud := some (UInt32.ofNat baud) }
  | .model => .ok { d with model := some text }
  | .frequency => do return { d with frequency := some (← readNumber text) }
  | .chips => do return { d with chips := some (← readWord text) }
  | .difficulty => do return { d with difficulty := some (← readWord text) }
  | .voltage => do return { d with voltage := some (← readWord text) }
  | .jobInterval => do return { d with jobInterval := some (← readWord text) }
  | .listen => do
    let seconds ← (Whole.unsigned 64 text.toList).mapError .whole
    return { d with listen := some (UInt64.ofNat seconds) }

end Draft

end ChipChain.CommandLine
