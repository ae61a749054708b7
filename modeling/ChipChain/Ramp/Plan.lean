import ChipChain.Frequency

/-!
# Frequency ramps

A hash clock is not moved in one jump. A ramp knows where the clock stands and
plans the stops on the way to a target: every multiple of the step in between,
then the target.
-/

namespace ChipChain

/-- Where the clock stands, and how it moves. -/
structure Ramp where
  current : Frequency
  /-- Distance between stops; zero goes straight to the target. -/
  step : Frequency
  settle : Nat
  deriving DecidableEq, Repr, Inhabited

namespace Ramp

/-- The clock of a chip that has just been powered. -/
def bootFrequency : Frequency := .ofKhz 56250

def defaultStep : Frequency := .ofKhz 6250

/-- The usual time between stops, in milliseconds. -/
def defaultSettle : Nat := 100

def tolerance : Frequency := .ofKhz 1

/-- A ramp at a frequency, with the usual step and rest. -/
def startingAt (current : Frequency) : Ramp :=
  ⟨current, defaultStep, defaultSettle⟩

/-- The ramp of a chip that has just been powered. -/
def boot : Ramp := startingAt bootFrequency

/-- Number of the multiple of `step` nearest to `hz`, halves going up. -/
def nearestMultiple (step hz : Nat) : Nat :=
  (hz + step / 2) / step

/-- The first multiple of `step` above `hz`. -/
def multipleAbove (step hz : Nat) : Nat :=
  (hz / step + 1) * step

/-- The first multiple of `step` below `hz`, for positive `hz`. -/
def multipleBelow (step hz : Nat) : Nat :=
  (hz - 1) / step * step

/-- The next multiple is higher. -/
theorem lt_multipleAbove {step : Nat} (h : 0 < step) (hz : Nat) : hz < multipleAbove step hz := by
  have := Nat.div_add_mod hz step
  have := Nat.mod_lt hz h
  rw [multipleAbove, Nat.add_mul, Nat.one_mul, Nat.mul_comm]
  omega

/-- The previous multiple is lower. -/
theorem multipleBelow_lt {hz : Nat} (step : Nat) (h : 0 < hz) : multipleBelow step hz < hz := by
  have := Nat.div_mul_le_self (hz - 1) step
  rw [multipleBelow]
  omega

def climb (step target hz : Nat) : List Frequency :=
  if 0 < step ∧ hz < target then
    let stop := min (multipleAbove step hz) target
    ⟨stop⟩ :: climb step target stop
  else []
termination_by target - hz
decreasing_by
  have := @lt_multipleAbove step (by omega) hz
  omega

def descend (step target hz : Nat) : List Frequency :=
  if target < hz then
    let stop := max (multipleBelow step hz) target
    ⟨stop⟩ :: descend step target stop
  else []
termination_by hz - target
decreasing_by
  have := @multipleBelow_lt hz step (by omega)
  omega

/-- The stops on the way to a target: none if it is within tolerance, and the target alone if no
step is set or both ends are nearest to one multiple of the step. A frequency is a 64-bit word; that
makes no difference as long as either end with one step added stays below 2^64. -/
def plan (ramp : Ramp) (target : Frequency) : List Frequency :=
  let step := ramp.step.hz
  let start := ramp.current.hz
  if (ramp.current.absDiff target).hz ≤ tolerance.hz then []
  else if step = 0 ∨ nearestMultiple step start = nearestMultiple step target.hz then [target]
  else if start < target.hz then climb step target.hz start
  else descend step target.hz start

end Ramp

end ChipChain
