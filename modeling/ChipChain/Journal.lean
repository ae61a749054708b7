/-!
# The journal

What the program reports as it works: a severity, the part of the program that
speaks, a message, and named fields; and the one line each report becomes.
-/

namespace ChipChain

inductive Level where
  | error
  | warn
  | info
  | debug
  | trace
  deriving DecidableEq, Repr

namespace Level

def rank : Level → Nat
  | error => 0
  | warn => 1
  | info => 2
  | debug => 3
  | trace => 4

def label : Level → String
  | error => "ERROR"
  | warn => "WARN "
  | info => "INFO "
  | debug => "DEBUG"
  | trace => "TRACE"

def colour : Level → String
  | error => "31"
  | warn => "33"
  | info => "32"
  | debug => "34"
  | trace => "35"

/-- Reports of a level are kept if it is at least as severe as the threshold. -/
def within (level threshold : Level) : Bool :=
  level.rank ≤ threshold.rank

end Level

structure Entry where
  level : Level
  source : String
  message : String
  fields : List (String × String) := []
  deriving DecidableEq, Repr

namespace Entry

def painted (colour text : String) : String :=
  "\x1b[" ++ colour ++ "m" ++ text ++ "\x1b[0m"

/-- The line of a report, without its time stamp: coloured label, source, message, and the fields
in grey if there are any. -/
def render (e : Entry) : String :=
  painted e.level.colour e.level.label ++ " " ++ e.source ++ ": " ++ e.message ++
    if e.fields.isEmpty then ""
    else " " ++ painted "90" (" ".intercalate (e.fields.map fun field => field.1 ++ "=" ++ field.2))

end Entry

abbrev Journal := Array Entry

/-- The lines of the reports that a threshold keeps. -/
def Journal.lines (journal : Journal) (threshold : Level) : List String :=
  (journal.toList.filter fun e => e.level.within threshold).map Entry.render

end ChipChain
