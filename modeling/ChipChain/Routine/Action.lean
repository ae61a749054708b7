import ChipChain.Error
import ChipChain.Journal
import ChipChain.Ramp.Plan
import ChipChain.Settings.Store
import ChipChain.Work.Ledger

/-!
# Actions

The single steps that a routine is made of. Each is one exchange with the
serial link, the ledger of work, the clock, or the host, and has its own type
of answer. Nothing can come between the parts of one action.
-/

namespace ChipChain

/-- What a voltage regulator makes of a request. -/
inductive RegulatorAnswer where
  | absent
  | done
  | failed (reason : String)
  deriving DecidableEq, Repr

/-- Responses of one length read in a row, up to the first reading that is not one. -/
structure Series where
  full : List Bytes
  /-- The reading that ended the series: fewer bytes, none at all, or a failure. -/
  ending : Except LinkError Bytes
  deriving Repr

inductive Action where
  | transmit (frame : Bytes)
  /-- Read at most `capacity` bytes within `window` milliseconds; no bytes if none came. -/
  | receive (capacity window : Nat)
  /-- Read again and again as long as each reading fills the capacity. -/
  | collect (capacity window : Nat)
  | flush
  | setBaud (baud : Nat)
  | pause (ms : Nat)
  | note (entry : Entry)
  | drawId
  | install (id : UInt8) (job : Job)
  | lookUp (id : UInt8)
  | screen (nonce : UInt32)
  | countLive
  | clearJobs
  | readRamp
  | storeRamp (ramp : Ramp)
  | readSettings
  | regulate (volts : Single)
  | deliver (found : Found)

def Action.Answer : Action → Type
  | transmit _ => Except LinkError Unit
  | receive _ _ => Except LinkError Bytes
  | collect _ _ => Series
  | flush => Except LinkError Unit
  | setBaud _ => Except LinkError Unit
  | pause _ => Unit
  | note _ => Unit
  | drawId => UInt8
  | install _ _ => Unit
  | lookUp _ => Option Job
  | screen _ => Bool
  | countLive => Nat
  | clearJobs => Unit
  | readRamp => Ramp
  | storeRamp _ => Unit
  | readSettings => Store
  | regulate _ => RegulatorAnswer
  | deliver _ => Bool

end ChipChain
