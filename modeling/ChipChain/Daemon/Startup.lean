import ChipChain.Manager
import ChipChain.Settings.Load

/-!
# Starting the daemon

From settings to a hashing chain: bring the chips up, raise the baud rate on
both ends, and divide the nonce space. Each stage that fails gives its own
error, with the cause below it.
-/

namespace ChipChain

/-- Why the daemon does not start, or does not go on. -/
inductive DaemonError where
  | badSettings (e : Model.Unknown)
  | overheated
  | bringUp (e : ChainError)
  | raiseBaud (e : ChainError)
  | switchHost (baud : Nat) (e : LinkError)
  | nonceRange (e : ChainError)
  | cannotOpen (path : String) (e : LinkError)
  | chainSilent
  deriving DecidableEq, Repr

namespace DaemonError

/-- The text of an error and of all causes below it, outermost first. -/
def chain : DaemonError → List String
  | badSettings e => ["invalid ASIC configuration", e.message]
  | overheated => [s!"overheat mode is set; clear {Store.Key.overheat} before hashing"]
  | bringUp e => "failed to initialise ASIC chain" :: e.message :: e.causes
  | raiseBaud e => "failed to raise chip baud rate" :: e.message :: e.causes
  | switchHost baud e => s!"failed to switch host to {baud} baud" :: e.message :: e.causes
  | nonceRange e => "failed to program nonce range" :: e.message :: e.causes
  | cannotOpen path e => s!"cannot open {path}" :: e.message :: e.causes
  | chainSilent => ["ASIC chain stopped responding"]

def message (e : DaemonError) : String :=
  ": ".intercalate e.chain

/-- Text after a first indentation, its further lines after another. -/
def indented (first further text : String) : String :=
  first ++ ("\n" ++ further).intercalate (text.splitOn "\n")

/-- The causes, one below the other; they are numbered if there is more than one. -/
def causeLines : List String → List String
  | [cause] => [indented "    " "    " cause]
  | causes => causes.zipIdx.map fun (cause, i) => indented s!"    {i}: " "       " cause

/-- The error as a report that ends a program. -/
def report (e : DaemonError) : String :=
  match e.chain with
  | [] => ""
  | [text] => s!"Error: {text}\n"
  | text :: causes =>
    "\n".intercalate ([s!"Error: {text}", "", "Caused by:"] ++ causeLines causes) ++ "\n"

end DaemonError

structure Daemon where
  settings : Settings
  hasWork : Bool
  /-- The daemon runs by itself and ends by itself, rather than being started and stopped. -/
  selfRunning : Bool
  listen : Option Nat

namespace Daemon

open Routine

def source : String := "daemon"

def say (level : Level) (message : String) : Entry :=
  ⟨level, source, message, []⟩

def controller (d : Daemon) : Controller :=
  .ofModel d.settings.model (d.settings.jobInterval.map UInt16.toNat)

/-- Turn the failures of a stage into the daemon's. -/
def stage {ε α : Type} (error : ε → DaemonError) (r : Routine ε α) : Routine DaemonError α :=
  r.mapError error

/-- Start the chain; the milliseconds that should lie between jobs. -/
def startUp (d : Daemon) : Routine DaemonError Float := do
  let s := d.settings
  if s.overheat then fail .overheated
  else
    let c := d.controller
    let detected ← stage .bringUp (c.init s.frequency s.chipCount.toNat s.difficulty)
    note ⟨.info, source, "ASIC chain ready",
      [("model", s.model.name), ("chips", toString detected)]⟩
    let baud ← stage .raiseBaud c.driver.setMaxBaud
    match ← setBaud baud with
    | .error e => fail (.switchHost baud e)
    | .ok () =>
      note ⟨.info, source, "Switched to fast baud", [("baud", toString baud)]⟩
      let interval ← stage .nonceRange (c.jobIntervalMs s.frequency s.chipCount.toNat)
      note ⟨.info, source, "Job interval", [("interval_ms", logNumber interval)]⟩
      return interval

/-- Milliseconds as whole nanoseconds, if they are a number that is not below zero. -/
def nanoseconds? (interval : Float) : Option Nat :=
  match BinaryValue.ofFloat (interval / 1000.0) with
  | .finite false significand exponent =>
    let (num, den) := ratioOf significand exponent
    some (roundDiv .even (num * 1000000000) den)
  | _ => none

/-- Whole milliseconds that a rest of this many takes: rounded to nanoseconds, then up to the next
tick of the clock. -/
def restMs (interval : Float) : Nat :=
  match nanoseconds? interval with
  | some count => (count + 999999) / 1000000
  | none => 0

end Daemon

end ChipChain
