import ChipChain.CommandLine.Flag

/-!
# Reading the command line

From words and environment to arguments. A value counts when the next known
option or the end of the line is met, so a word that is no option at all is
reported even if the value before it is wrong. What the line does not give is
taken from the environment, and what neither gives has a default or is missing.
-/

namespace ChipChain.CommandLine

/-- What is wrong with a command line. -/
inductive UsageError where
  | unexpected (word : String)
  | noValue (flag : Flag)
  | badValue (flag : Flag) (value : String) (fault : ValueFault)
  | unwantedValue (option value : String)
  | repeated (flag : Flag)
  | missing (flag : Flag)
  deriving DecidableEq, Repr

def UsageError.message : UsageError → String
  | unexpected word => s!"unexpected argument '{word}' found"
  | noValue flag => s!"a value is required for '{flag.usage}' but none was supplied"
  | badValue flag value fault => s!"invalid value '{value}' for '{flag.usage}': {fault.message}"
  | unwantedValue option value =>
    s!"unexpected value '{value}' for '{option}' found; no more were expected"
  | repeated flag => s!"the argument '{flag.usage}' cannot be used multiple times"
  | missing flag => s!"the following required arguments were not provided:\n  {flag.usage}"

inductive Stop where
  | information
  | usage (e : UsageError)
  deriving DecidableEq, Repr

inductive Shape where
  | escape
  | long (name : String) (value : Option String)
  | short (letter : Char) (rest : List Char)
  | plain
  deriving DecidableEq, Repr

def Shape.of (word : String) : Shape :=
  match word.toList with
  | ['-', '-'] => .escape
  | '-' :: '-' :: body =>
    let name := String.ofList (body.takeWhile (· ≠ '='))
    match body.dropWhile (· ≠ '=') with
    | [] => .long name none
    | _ :: value => .long name (some (String.ofList value))
  | '-' :: letter :: rest => .short letter rest
  | _ => .plain

/-- The value attached to a letter; an equals sign in front does not belong to it. -/
def attached : List Char → Option String
  | [] => none
  | '=' :: value => some (String.ofList value)
  | value => some (String.ofList value)

/-- An option whose value has not been read yet. -/
structure Pending where
  flag : Flag
  value : Option String
  deriving DecidableEq, Repr

namespace Draft

def accept (d : Draft) (flag : Flag) (value : String) : Except UsageError Draft :=
  if d.has flag then .error (.repeated flag)
  else (d.set value flag).mapError (.badValue flag value)

def commit (d : Draft) : Option Pending → Except UsageError Draft
  | none => .ok d
  | some ⟨flag, none⟩ => .error (.noValue flag)
  | some ⟨flag, some value⟩ => d.accept flag value

/-- Read the value that is due, and then that of an option just met. -/
def meet (d : Draft) (due : Option Pending) (flag : Flag) (value : Option String) :
    Except UsageError (Draft × Option Pending) := do
  let d ← d.commit due
  match value with
  | some value => return (← d.accept flag value, none)
  | none => return (d, some ⟨flag, none⟩)

def ask (d : Draft) (due : Option Pending) : Stop :=
  match d.commit due with
  | .ok _ => .information
  | .error e => .usage e

def readWords (d : Draft) (due : Option Pending) : List String → Except Stop Draft
  | [] => (d.commit due).mapError .usage
  | word :: rest =>
    match Shape.of word with
    | .escape =>
      match rest with
      | [] => (d.commit due).mapError .usage
      | word :: _ => .error (.usage (.unexpected word))
    | .long name value =>
      match Flag.ofLong? name with
      | some flag => do
        let (d, due) ← (d.meet due flag value).mapError .usage
        d.readWords due rest
      | none =>
        if name = "help" ∨ name = "version" then
          match value with
          | none => .error (d.ask due)
          | some value => .error (.usage (.unwantedValue ("--" ++ name) value))
        else .error (.usage (.unexpected ("--" ++ name)))
    | .short letter more =>
      match Flag.ofLetter? letter with
      | some flag => do
        let (d, due) ← (d.meet due flag (attached more)).mapError .usage
        d.readWords due rest
      | none =>
        if letter = 'h' ∨ letter = 'V' then .error (d.ask due)
        else .error (.usage (.unexpected (String.ofList ['-', letter])))
    | .plain =>
      match due with
      | some ⟨flag, none⟩ => d.readWords (some ⟨flag, some word⟩) rest
      | _ => .error (.usage (.unexpected word))

/-- Fill in from the environment what the command line does not give. -/
def fillIn (environment : String → Option String) : Draft → List Flag → Except UsageError Draft
  | d, [] => .ok d
  | d, flag :: rest =>
    match if d.has flag then none else flag.variableName?.bind environment with
    | none => d.fillIn environment rest
    | some value => do
      let d ← (d.set value flag).mapError (.badValue flag value)
      d.fillIn environment rest

end Draft

structure Arguments where
  port : String
  baud : UInt32
  model : String
  frequency : Option Single
  chips : UInt16
  difficulty : Option UInt16
  voltage : Option UInt16
  jobInterval : Option UInt16
  listen : Option UInt64
  deriving DecidableEq, Repr

namespace Arguments

/-- Put defaults in place of what is not given; the model has none. -/
def ofDraft (d : Draft) : Except UsageError Arguments :=
  match d.model with
  | none => .error (.missing .model)
  | some model =>
    .ok {
      port := d.port.getD "/dev/ttyUSB0"
      baud := d.baud.getD 115200
      model
      frequency := d.frequency
      chips := d.chips.getD 1
      difficulty := d.difficulty
      voltage := d.voltage
      jobInterval := d.jobInterval
      listen := d.listen }

/-- Read the command line, with the environment behind it. -/
def read (words : List String) (environment : String → Option String) : Except Stop Arguments := do
  let d ← ({} : Draft).readWords none words
  let d ← (d.fillIn environment Flag.all).mapError .usage
  (ofDraft d).mapError .usage

def store (a : Arguments) : Store :=
  let entries : List (String × Option Setting) :=
    [(Store.Key.model, some (.text a.model)),
     (Store.Key.chipCount, some (.word a.chips)),
     (Store.Key.frequency, a.frequency.map .number),
     (Store.Key.difficulty, a.difficulty.map .word),
     (Store.Key.voltage, a.voltage.map .word),
     (Store.Key.jobInterval, a.jobInterval.map .word)]
  entries.foldl (fun s entry =>
    match entry.2 with
    | some value => s.set entry.1 value
    | none => s) {}

end Arguments

end ChipChain.CommandLine
