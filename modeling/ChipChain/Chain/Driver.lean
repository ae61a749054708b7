import ChipChain.Routine.Basic
import ChipChain.Ramp.Transition

/-!
# Chip drivers

What every kind of chip lets the host do, as one record of routines, and the
part of it that the kinds share: moving the clock along a ramp, and telling the
fate of a result.
-/

namespace ChipChain

/-- Everything the host can do with a chain of one kind of chip. -/
structure Driver where
  family : Family
  /-- Bring the chain up at a frequency for an expected number of chips at a reporting difficulty;
  how many chips answered, zero leaving the chain as it was. -/
  init : Frequency → (chips : Nat) → (difficulty : UInt32) → Routine ChainError Nat
  setMaxBaud : Routine ChainError Nat
  setDifficulty : UInt32 → Routine ChainError Unit
  setVersionMask : UInt32 → Routine ChainError Unit
  sendWork : Job → Routine ChainError UInt8
  readShare : Routine ChainError (Option Share)
  setFrequency : Frequency → Routine ChainError Unit
  setNonceRange : Frequency → (chips : Nat) → Routine ChainError Unit
  timeout : Frequency → (chips versions : Nat) → Routine ChainError Float

namespace Driver

open Routine

def surroundings (apply : Frequency → Routine ChainError Unit) :
    Ramp.Surroundings (Routine ChainError) where
  note := Routine.note
  rest := Routine.pause
  apply f := (apply f).attempt

/-- Move the chips' clock to a target, remembering where it stands however the move ends. -/
def moveClock (apply : Frequency → Routine ChainError Unit) (target : Frequency) :
    Routine ChainError Unit := do
  let ramp ← readRamp
  let (moved, outcome) ← Ramp.transition (surroundings apply) ramp target
  storeRamp moved
  ofExcept outcome

/-- Hand out a job in a payload layout: the job becomes the live one before its frame is sent. -/
def dispatch (source : String) (send : Command → Routine ChainError Unit)
    (payload : Job → UInt8 → Bytes) (job : Job) : Routine ChainError UInt8 := do
  let id ← drawId
  install id job
  note ⟨.trace, source, "Sending job", [("job_id", toString id)]⟩
  send (.job (payload job id))
  return id

def nonceReport (level : Level) (source message : String) (jobId : UInt8) (nonce : UInt32) :
    Entry :=
  ⟨level, source, message,
    [("job_id", toString jobId), ("nonce", Bytes.hexNumber 1 nonce.toNat)]⟩

/-- Match a nonce with the live job under its identifier and drop it if it was just reported. -/
def settle (source : String) (jobId : UInt8) (nonce : UInt32) (version : Job → UInt32) :
    Routine ChainError (Option Share) := do
  match ← lookUp jobId with
  | none =>
    note (nonceReport .warn source "Result for unknown job" jobId nonce)
    return none
  | some job =>
    if ← screen nonce then return some ⟨jobId, nonce, version job, job⟩
    else
      note (nonceReport .debug source "Repeated nonce" jobId nonce)
      return none

def clockSet (source : String) (requested actual : Frequency) : Entry :=
  ⟨.debug, source, "Hash frequency set",
    [("requested", requested.text), ("actual", actual.text)]⟩

/-- The report that the chips change to their fastest rate. -/
def baudRaised (source : String) (baud : Nat) : Entry :=
  ⟨.info, source, "Setting max baud", [("baud", toString baud)]⟩

end Driver

end ChipChain
