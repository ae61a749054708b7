import ChipChain.Chain.Midstate
import ChipChain.Chain.Rolling

/-!
# The chain controller

One face for chains of every model: picks the driver, insists that somebody
answers, and decides how long a job keeps the chain busy.
-/

namespace ChipChain

def Model.driver : Model → Driver
  | .bm1397 => Midstate.driver
  | .bm1366 => Rolling.driver .bm1366
  | .bm1368 => Rolling.driver .bm1368
  | .bm1370 => Rolling.driver .bm1370

/-- A chain under one of the drivers. -/
structure Controller where
  driver : Driver
  /-- Milliseconds between jobs, if they are not to be computed. -/
  jobInterval : Option Nat := none

namespace Controller

open Routine

def source : String := "asic"

/-- Jobs follow each other no faster than this many milliseconds. -/
def minJobInterval : Float := 20.0

def versionsToRoll : Nat := (defaultVersionMask >>> 13).toNat

def ofModel (model : Model) (jobInterval : Option Nat) : Controller :=
  ⟨model.driver, jobInterval⟩

def model (c : Controller) : Model := c.driver.family.model

/-- Bring the chain up; a chain on which nobody answers is a failure. -/
def init (c : Controller) (target : Frequency) (chips : Nat) (difficulty : UInt32) :
    Routine ChainError Nat := do
  note ⟨.info, source, "Initializing ASIC chain",
    [("model", c.model.name), ("frequency", target.text), ("chips", toString chips),
     ("difficulty", toString difficulty)]⟩
  let detected ← c.driver.init target chips difficulty
  if detected = 0 then
    note ⟨.error, source, "No chips detected on the chain", [("model", c.model.name)]⟩
    fail .noChips
  else return detected

/-- Move the hash clock; whether that succeeded. -/
def setFrequency {ε : Type} (c : Controller) (target : Frequency) : Routine ε Bool := do
  note ⟨.info, source, "Setting ASIC frequency", [("frequency", target.text)]⟩
  match ← (c.driver.setFrequency target).attempt with
  | .ok () =>
    note ⟨.info, source, "ASIC frequency transition complete", [("frequency", target.text)]⟩
    return true
  | .error e =>
    note ⟨.error, source, "ASIC frequency transition failed",
      [("frequency", target.text), ("error", e.message)]⟩
    return false

/-- The larger of two numbers; what is no number gives way to the other. -/
def maxNumber (x y : Float) : Float :=
  if x.isNaN then y else if x < y then y else x

/-- Divide the nonce space, then say how many milliseconds should lie between jobs. -/
def jobIntervalMs (c : Controller) (target : Frequency) (chips : Nat) :
    Routine ChainError Float := do
  note ⟨.debug, source, "Computing job interval",
    [("frequency", target.text), ("chips", toString chips),
     ("versions_to_roll", toString versionsToRoll)]⟩
  c.driver.setNonceRange target chips
  let needed ← c.driver.timeout target chips versionsToRoll
  let computed := maxNumber needed minJobInterval
  match c.jobInterval with
  | some ms =>
    note ⟨.info, source, "Using configured job interval",
      [("computed_ms", logNumber computed), ("interval_ms", toString ms)]⟩
    return ms.toUInt64.toFloat
  | none => return computed

end Controller

end ChipChain
