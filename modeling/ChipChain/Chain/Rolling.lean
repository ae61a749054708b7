import ChipChain.Chain.Bus
import ChipChain.Chain.Driver
import ChipChain.NonceSpace
import ChipChain.Pll
import ChipChain.Work.Payload

/-!
# Chips that roll versions

The BM1366, BM1368 and BM1370 roll block versions themselves and report the
rolled bits with each nonce. They share one driver; what tells them apart is a
profile of register words and the way a result echoes its job.
-/

namespace ChipChain

structure RollingProfile where
  family : Family
  miscControl : UInt32
  coreControl : List UInt32
  analogMux : UInt32
  driverStrength : Option UInt32
  lateWrites : List (UInt8 × UInt32)
  /-- The job identifier in the echo of a result. -/
  jobId : UInt8 → UInt8

namespace RollingProfile

/-- The BM1366 keeps the identifier in the five high bits. -/
def bm1366 : RollingProfile where
  family := Model.bm1366.family
  miscControl := 0xff0fc100
  coreControl := [0x80008540, 0x80008020]
  analogMux := 3
  driverStrength := some 0x02111111
  lateWrites := []
  jobId raw := raw &&& 0xf8

/-- The BM1368 keeps the identifier, doubled, in the four high bits. -/
def bm1368 : RollingProfile where
  family := Model.bm1368.family
  miscControl := 0xff0fc100
  coreControl := [0x80008b00, 0x80008018]
  analogMux := 3
  driverStrength := none
  lateWrites := []
  jobId raw := (raw &&& 0xf0) >>> 1

/-- The BM1370 keeps the identifier, doubled, in the four high bits. -/
def bm1370 : RollingProfile where
  family := Model.bm1370.family
  miscControl := 0xf000c100
  coreControl := [0x80008b00, 0x8000800c]
  analogMux := 2
  driverStrength := some 0x00011111
  lateWrites := [(Register.miscSettings, 0x00004480), (Register.coreRegisterControl, 0x80008dee)]
  jobId raw := (raw &&& 0xf0) >>> 1

/-- The profile of a model, if it rolls versions. -/
def ofModel? : Model → Option RollingProfile
  | .bm1397 => none
  | .bm1366 => some bm1366
  | .bm1368 => some bm1368
  | .bm1370 => some bm1370

end RollingProfile

namespace Rolling

open Routine

def source : String := "asic::bm13xx"

/-- Oscillators from this many megahertz on run in the high range. -/
def highRangeMhz : Nat := 2400

/-- The register word of a clock setting: range, feedback and reference divider, and both
post-dividers less one. -/
def clockWord (d : Dividers) : UInt32 :=
  let range : UInt8 :=
    if highRangeMhz * d.reference ≤ Dividers.crystalMhz * d.feedback then 0x50 else 0x40
  Bytes.toUInt32BE range (UInt8.ofNat d.feedback) (UInt8.ofNat d.reference)
    ((UInt8.ofNat (d.post1 - 1) <<< 4) ||| UInt8.ofNat (d.post2 - 1))

/-- Set the clock to the fastest setting that does not exceed a frequency. -/
def setClock (target : Frequency) : Routine ChainError Unit :=
  match Dividers.lookup target with
  | none => fail (.noDividers target)
  | some d => do
    Bus.writeAll Register.pll0Parameter (clockWord d)
    note (Driver.clockSet source target d.frequency)

def setVersionMask (mask : UInt32) : Routine ChainError Unit :=
  Bus.writeAll Register.versionMask ((0x90000000 : UInt32) ||| ((mask >>> 13) &&& 0xffff))

/-- Divide the nonce space among the chips and their cores. -/
def setNonceRange (profile : RollingProfile) (f : Frequency) (chips : Nat) :
    Routine ChainError Unit := do
  let interval := addressInterval chips
  let cores := profile.family.coreCount
  let word := hashCountingNumber cores interval f
  note ⟨.debug, source, "Setting hash counting number",
    [("frequency", f.text), ("interval", toString interval), ("cores", toString cores),
     ("hcn", toString word)]⟩
  Bus.writeAll Register.hashCountingNumber word

/-- Set up one chip after it has its address. -/
def configureChip (profile : RollingProfile) (address : UInt8) : Routine ChainError Unit := do
  Bus.writeChip address Register.initControl 0x000701f0
  Bus.writeChip address Register.miscControl 0xf000c100
  forEach profile.coreControl fun word => Bus.writeChip address Register.coreRegisterControl word
  Bus.writeChip address Register.coreRegisterControl 0x800082aa

def init (profile : RollingProfile) (target : Frequency) (chips : Nat) (difficulty : UInt32) :
    Routine ChainError Nat := do
  times 3 (setVersionMask defaultVersionMask)
  Bus.send (.readAll Register.chipAddress)
  let detected ← Bus.countChips profile.family chips
  if detected = 0 then return 0
  Bus.writeAll Register.initControl 0x00070000
  Bus.writeAll Register.miscControl profile.miscControl
  let plan ← ofExcept ((AddressPlan.evenlySpaced chips).mapError .addresses)
  Bus.assignAddresses plan
  forEach profile.coreControl fun word => Bus.writeAll Register.coreRegisterControl word
  Bus.writeTicketMask difficulty
  Bus.writeAll Register.analogMuxControl profile.analogMux
  forEach profile.driverStrength.toList fun word => Bus.writeAll Register.ioDriverStrength word
  forEach plan.addresses (configureChip profile)
  forEach profile.lateWrites fun (register, word) => Bus.writeAll register word
  Driver.moveClock setClock target
  setNonceRange profile target chips
  setVersionMask defaultVersionMask
  return detected

def setMaxBaud (profile : RollingProfile) : Routine ChainError Nat := do
  note (Driver.baudRaised source profile.family.maxBaud)
  Bus.writeAll Register.fastUartConfiguration 0x11300200
  return profile.family.maxBaud

structure ResultFields where
  nonce : UInt32
  echo : UInt8
  versionBits : UInt16
  deriving DecidableEq, Repr

def ResultFields.read? : Bytes → Option ResultFields
  | _ :: _ :: n0 :: n1 :: n2 :: n3 :: _ :: echo :: v1 :: v0 :: _ =>
    some ⟨Bytes.toUInt32LE n0 n1 n2 n3, echo, Bytes.toUInt16BE v1 v0⟩
  | _ => none

/-- The core that found the nonce: the seven high bits of its last byte on the wire order. -/
def ResultFields.core (r : ResultFields) : UInt32 :=
  match Bytes.ofUInt32LE r.nonce with
  | first :: _ => (first >>> 1).toUInt32
  | [] => 0

def ResultFields.version (r : ResultFields) (job : Job) : UInt32 :=
  job.version ||| (r.versionBits.toUInt32 <<< 13)

def settleFrame (profile : RollingProfile) (frame : Bytes) : Routine ChainError (Option Share) :=
  match ResultFields.read? frame with
  | none => fail .stubResponse
  | some result => do
    let jobId := profile.jobId result.echo
    note ⟨.trace, source, "Nonce response",
      [("job_id", toString jobId), ("core", toString result.core),
       ("small_core", toString (result.echo &&& 0x0f))]⟩
    Driver.settle source jobId result.nonce result.version

def readShare (profile : RollingProfile) : Routine ChainError (Option Share) := do
  match ← Bus.receiveWork profile.family.resultLength with
  | none => return none
  | some frame => settleFrame profile frame

def driver (profile : RollingProfile) : Driver where
  family := profile.family
  init := init profile
  setMaxBaud := setMaxBaud profile
  setDifficulty := Bus.writeTicketMask
  setVersionMask := setVersionMask
  sendWork := Driver.dispatch source Bus.send Job.rollingPayload
  readShare := readShare profile
  setFrequency := Driver.moveClock setClock
  setNonceRange := setNonceRange profile
  timeout f chips versions :=
    done (searchTime profile.family.coreCount (addressInterval chips) f versions)

end Rolling

end ChipChain
