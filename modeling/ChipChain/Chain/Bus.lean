import ChipChain.Bits
import ChipChain.Routine.Basic
import ChipChain.Wire.Register

/-!
# The chip bus

What all chips have in common: sending commands, counting the chips that
answer, handing out addresses, setting the reporting difficulty, and reading
result frames.
-/

namespace ChipChain.Bus

open Routine

def source : String := "asic::common"

/-- How long to wait for the next chip to answer, in milliseconds. -/
def enumerationWindow : Nat := 1000

/-- How long to wait for a result, in milliseconds. -/
def workWindow : Nat := 10000

/-- Encode a command and send it; the first failure ends the routine. -/
def send (command : Command) : Routine ChainError Unit :=
  match command.encode [] with
  | .error e => fail (.encoding e)
  | .ok frame => do
    note ⟨.trace, source, "Frame", [("tx", Bytes.toHex frame)]⟩
    match ← transmit frame with
    | .error e => fail (.link e)
    | .ok () => done ()

def writeAll (register : UInt8) (value : UInt32) : Routine ChainError Unit :=
  send (.writeAll register value)

def writeChip (chip register : UInt8) (value : UInt32) : Routine ChainError Unit :=
  send (.writeChip chip register value)

/-- Have the chips report only hashes of at least this difficulty. -/
def writeTicketMask (difficulty : UInt32) : Routine ChainError Unit := do
  note ⟨.info, source, "Setting job difficulty mask",
    [("mask", toString (difficultyMask difficulty))]⟩
  writeAll Register.ticketMask (ticketMaskWord difficulty)

/-- Clear all addresses, then hand out those of a plan. -/
def assignAddresses (plan : AddressPlan) : Routine ChainError Unit := do
  send .chainInactive
  forEach plan.addresses fun address => send (.setAddress address)
  note ⟨.debug, source, "Chip addresses assigned",
    [("chips", toString plan.chipCount), ("interval", toString plan.interval)]⟩

/-! ## Counting chips -/

def maxCount : Nat := 65535

/-- What one full answer to the identity request means, given the count so far: whether it counts,
and the report about it. -/
def judgeIdentity (family : Family) (count : Nat) (response : Bytes) : Bool × Entry :=
  match Response.check response family.identityLength with
  | .error fault =>
    (false, ⟨.warn, source, "Skipping bad chip ID response",
      [("error", fault.message), ("rx", Bytes.toHex response)]⟩)
  | .ok () =>
    let identity := (Response.chipId? response).getD 0
    if identity ≠ family.chipId then
      (false, ⟨.warn, source, "Chip ID mismatch",
        [("expected", Bytes.hexNumber 4 family.chipId.toNat),
         ("actual", Bytes.hexNumber 4 identity.toNat)]⟩)
    else
      (true, ⟨.debug, source, "Chip detected",
        [("chip", toString count), ("core_num", toString (response.getD 4 0)),
         ("address", toString (response.getD 5 0))]⟩)

/-- Count the valid identities among full answers, reporting on each. -/
def countIdentities (family : Family) : (count : Nat) → List Bytes → Routine ChainError Nat
  | count, [] => done count
  | count, response :: rest => do
    let (counts, report) := judgeIdentity family count response
    note report
    countIdentities family (if counts then min (count + 1) maxCount else count) rest

/-- The report on what ended a series of identities, unless it was silence. -/
def endingReport (family : Family) : Except LinkError Bytes → Option Entry
  | .error e =>
    some ⟨.error, source, "Bus error while reading chip IDs", [("error", e.message)]⟩
  | .ok [] => none
  | .ok response =>
    let fault : ResponseFault := .length family.identityLength response.length
    some ⟨.warn, source, "Truncated chip ID response",
      [("error", fault.message), ("rx", Bytes.toHex response)]⟩

/-- Count the chips that answer the identity request. Damaged and foreign answers are skipped; the
first silence, failure or short answer ends the count. -/
def countChips (family : Family) (expected : Nat) : Routine ChainError Nat := do
  let series ← collect family.identityLength enumerationWindow
  let count ← countIdentities family 0 series.full
  forEach (endingReport family series.ending).toList note
  if count ≠ expected then
    note ⟨.warn, source, "Unexpected chip count on chain",
      [("detected", toString count), ("expected", toString expected)]⟩
  note ⟨.info, source, "Chain enumerated",
    [("model", family.model.name), ("chips", toString count)]⟩
  return count

/-! ## Reading results -/

/-- Drop a damaged frame together with whatever else has come in. -/
def discard (frame : Bytes) (fault : ResponseFault) : Routine ChainError (Option Bytes) := do
  note ⟨.warn, source, "Dropping malformed work response",
    [("error", fault.message), ("rx", Bytes.toHex frame)]⟩
  match ← flush with
  | .ok () => return none
  | .error e =>
    note ⟨.error, source, "Failed to clear receive buffer", [("error", e.message)]⟩
    return none

def sift (length : Nat) (frame : Bytes) : Routine ChainError (Option Bytes) := do
  note ⟨.trace, source, "Frame", [("rx", Bytes.toHex frame)]⟩
  match Response.check frame length with
  | .ok () => return some frame
  | .error .stub => fail .stubResponse
  | .error fault => discard frame fault

/-- Read one result frame of this length. Only a port that is gone is a failure. -/
def receiveWork (length : Nat) : Routine ChainError (Option Bytes) := do
  match ← receive length workWindow with
  | .error .disconnected => fail (.link .disconnected)
  | .error e =>
    note ⟨.error, source, "Bus error while reading work response", [("error", e.message)]⟩
    return none
  | .ok [] =>
    note ⟨.debug, source, "No work response before timeout", []⟩
    return none
  | .ok frame => sift length frame

end ChipChain.Bus
