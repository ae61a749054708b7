import ChipChain.Chain.Bus
import ChipChain.Chain.Driver
import ChipChain.NonceSpace
import ChipChain.Pll
import ChipChain.Work.Payload

/-!
# Chips that take midstates

The BM1397 hashes up to four precomputed midstates per job and tells in a
result which of them it was. Its clock is set twice per stop and cannot be
moved once the chain is up.
-/

namespace ChipChain.Midstate

open Routine

def source : String := "asic::bm1397"

def family : Family := Model.bm1397.family

/-- Rest after counting chips, in milliseconds. -/
def enumerationRest : Nat := 20

/-- Rest before each write of the clock, in milliseconds. -/
def clockRest : Nat := 10

def versionsPerJob : Nat := 4

def clockWord (d : Dividers) : UInt32 :=
  let post1 := UInt8.ofNat d.post1
  let post2 := UInt8.ofNat d.post2
  Bytes.toUInt32BE 0x40 (UInt8.ofNat d.feedback) (UInt8.ofNat d.reference)
    (((post1 &&& 7) <<< 4) ||| (post2 &&& 7))

/-- Set the clock to the fastest setting that does not exceed a frequency. -/
def setClock (target : Frequency) : Routine ChainError Unit :=
  match Dividers.lookup target with
  | none => fail (.noDividers target)
  | some d => do
    times 2 do
      pause clockRest
      Bus.writeAll Register.pll0Divider 0x0f0f0f00
    times 2 do
      pause clockRest
      Bus.writeAll Register.pll0Parameter (clockWord d)
    pause clockRest
    note (Driver.clockSet source target d.frequency)

def init (target : Frequency) (chips : Nat) (difficulty : UInt32) : Routine ChainError Nat := do
  Bus.send (.readAll Register.chipAddress)
  let detected ← Bus.countChips family chips
  if detected = 0 then return 0
  pause enumerationRest
  let plan ← ofExcept ((AddressPlan.evenlySpaced chips).mapError .addresses)
  Bus.assignAddresses plan
  Bus.writeAll Register.clockOrderControl0 0
  Bus.writeAll Register.clockOrderControl1 0
  Bus.writeAll Register.orderedClockEnable 1
  Bus.writeAll Register.coreRegisterControl 0x80008074
  Bus.writeTicketMask difficulty
  Bus.writeAll Register.pll3Parameter 0xc0700111
  Bus.writeAll Register.fastUartConfiguration 0x0600000f
  Bus.writeAll Register.miscControl 0x00007a31
  Driver.moveClock setClock target
  return detected

def setMaxBaud : Routine ChainError Nat := do
  note (Driver.baudRaised source family.maxBaud)
  Bus.writeAll Register.miscControl 0x00006031
  return family.maxBaud

structure ResultFields where
  nonce : UInt32
  jobId : UInt8
  midstate : UInt8
  deriving DecidableEq, Repr

def ResultFields.read? : Bytes → Option ResultFields
  | _ :: _ :: n0 :: n1 :: n2 :: n3 :: _ :: id :: _ =>
    some ⟨Bytes.toUInt32LE n0 n1 n2 n3, id &&& 0xfc, id &&& 0x03⟩
  | _ => none

/-- The version of the job's midstate number `count`. -/
def versionAfter (job : Job) : (count : Nat) → UInt32
  | 0 => job.version
  | count + 1 => incrementMasked (versionAfter job count) job.versionMask

def settleFrame (frame : Bytes) : Routine ChainError (Option Share) :=
  match ResultFields.read? frame with
  | none => fail .stubResponse
  | some result =>
    Driver.settle source result.jobId result.nonce fun job =>
      versionAfter job result.midstate.toNat

def readShare : Routine ChainError (Option Share) := do
  match ← Bus.receiveWork family.resultLength with
  | none => return none
  | some frame => settleFrame frame

def setFrequency (target : Frequency) : Routine ChainError Unit := do
  note ⟨.error, source, "BM1397 frequency changes after init are not supported",
    [("frequency", target.text)]⟩
  fail (.fixedFrequency family.model)

def driver : Driver where
  family := family
  init := init
  setMaxBaud := setMaxBaud
  setDifficulty := Bus.writeTicketMask
  -- Versions are rolled in the midstates, and the nonce range is fixed.
  setVersionMask _ := done ()
  sendWork := Driver.dispatch source Bus.send Job.midstatePayload
  readShare := readShare
  setFrequency := setFrequency
  setNonceRange _ _ := done ()
  timeout f chips versions :=
    done (searchTime family.coreCount (addressInterval chips) f (min versions versionsPerJob))

end ChipChain.Midstate
