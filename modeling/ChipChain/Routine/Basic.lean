import ChipChain.Routine.Action

/-!
# Routines

A routine is a finished value, a failure, or an action together with what
follows each of its answers. Routines are data: one and the same routine is
run to its end, cut off where it waits, or interleaved with others.
-/

namespace ChipChain

/-- A tree of actions that ends in values and failures. -/
inductive Routine (ε α : Type) : Type where
  | done (value : α)
  | fail (error : ε)
  | act (action : Action) (next : action.Answer → Routine ε α)

namespace Routine

variable {ε δ α β : Type}

/-- Go on after a routine that ended well. -/
def bind : Routine ε α → (α → Routine ε β) → Routine ε β
  | done value, f => f value
  | fail error, _ => fail error
  | act action next, f => act action fun answer => (next answer).bind f

instance : Monad (Routine ε) where
  pure := done
  bind := bind

def perform (action : Action) : Routine ε action.Answer :=
  act action done

/-- Turn the outcome, good or bad, into a value. -/
def attempt : Routine ε α → Routine δ (Except ε α)
  | done value => done (.ok value)
  | fail error => done (.error error)
  | act action next => act action fun answer => (next answer).attempt

def mapError (f : ε → δ) : Routine ε α → Routine δ α
  | done value => done value
  | fail error => fail (f error)
  | act action next => act action fun answer => (next answer).mapError f

/-- The routine that has this outcome at once. -/
def ofExcept : Except ε α → Routine ε α
  | .ok value => done value
  | .error error => fail error

/-! ## Routines of one action -/

def transmit (frame : Bytes) : Routine ε (Except LinkError Unit) :=
  perform (.transmit frame)

def receive (capacity window : Nat) : Routine ε (Except LinkError Bytes) :=
  perform (.receive capacity window)

def collect (capacity window : Nat) : Routine ε Series :=
  perform (.collect capacity window)

def flush : Routine ε (Except LinkError Unit) :=
  perform .flush

def setBaud (baud : Nat) : Routine ε (Except LinkError Unit) :=
  perform (.setBaud baud)

def pause (ms : Nat) : Routine ε Unit :=
  perform (.pause ms)

def note (entry : Entry) : Routine ε Unit :=
  perform (.note entry)

def drawId : Routine ε UInt8 :=
  perform .drawId

def install (id : UInt8) (job : Job) : Routine ε Unit :=
  perform (.install id job)

def lookUp (id : UInt8) : Routine ε (Option Job) :=
  perform (.lookUp id)

def screen (nonce : UInt32) : Routine ε Bool :=
  perform (.screen nonce)

def countLive : Routine ε Nat :=
  perform .countLive

def clearJobs : Routine ε Unit :=
  perform .clearJobs

def readRamp : Routine ε Ramp :=
  perform .readRamp

def storeRamp (ramp : Ramp) : Routine ε Unit :=
  perform (.storeRamp ramp)

def readSettings : Routine ε Store :=
  perform .readSettings

def regulate (volts : Single) : Routine ε RegulatorAnswer :=
  perform (.regulate volts)

def deliver (found : Found) : Routine ε Bool :=
  perform (.deliver found)

/-! ## Repetition -/

def forEach (xs : List α) (f : α → Routine ε Unit) : Routine ε Unit :=
  match xs with
  | [] => done ()
  | x :: rest => (f x).bind fun _ => forEach rest f

def times : Nat → Routine ε Unit → Routine ε Unit
  | 0, _ => done ()
  | count + 1, p => p.bind fun _ => times count p

end Routine

end ChipChain
