import ChipChain.Error
import ChipChain.Journal
import ChipChain.Ramp.Plan

/-!
# Walking a ramp

A transition applies the planned stops one by one, rests between two stops, and
ends at the first stop that cannot be applied. What "apply" and "rest" mean is
up to the surroundings, so the same walk serves a chain of chips and a record
of stops.
-/

namespace ChipChain.Ramp

/-- What a transition asks of its surroundings. -/
structure Surroundings (m : Type → Type) where
  note : Entry → m Unit
  rest : Nat → m Unit
  apply : Frequency → m (Except ChainError Unit)

def source : String := "asic::ramp"

def alreadyThere (target : Frequency) : Entry :=
  ⟨.debug, source, "Frequency already at target", [("frequency", target.text)]⟩

def beginning (start target : Frequency) (stops : Nat) : Entry :=
  ⟨.info, source, "Ramping frequency",
    [("from", start.text), ("to", target.text), ("steps", toString stops)]⟩

def applied (stop : Frequency) : Entry :=
  ⟨.trace, source, "Frequency step applied", [("frequency", stop.text)]⟩

def complete (reached : Frequency) : Entry :=
  ⟨.info, source, "Frequency transition complete", [("frequency", reached.text)]⟩

variable {m : Type → Type} [Monad m]

/-- Apply the stops in order, resting after every one but the last, until one fails. -/
def follow (s : Surroundings m) (ramp : Ramp) : List Frequency → m (Ramp × Except ChainError Unit)
  | [] => pure (ramp, .ok ())
  | stop :: rest => do
    match ← s.apply stop with
    | .error e => pure (ramp, .error e)
    | .ok () =>
      let moved := { ramp with current := stop }
      s.note (applied stop)
      if rest.isEmpty then pure (moved, .ok ())
      else do
        s.rest ramp.settle
        follow s moved rest

/-- Move the clock to a target: the ramp afterwards stands at the last stop that was applied. -/
def transition (s : Surroundings m) (ramp : Ramp) (target : Frequency) :
    m (Ramp × Except ChainError Unit) := do
  let stops := ramp.plan target
  if stops.isEmpty then do
    s.note (alreadyThere target)
    pure (ramp, .ok ())
  else do
    s.note (beginning ramp.current target stops.length)
    let (moved, outcome) ← follow s ramp stops
    match outcome with
    | .error e => pure (moved, .error e)
    | .ok () => do
      s.note (complete moved.current)
      pure (moved, .ok ())

end ChipChain.Ramp
