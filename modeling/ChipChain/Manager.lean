import ChipChain.Chain.Controller
import ChipChain.Settings.Store

/-!
# The settings manager

Looks at the settings again and again and carries changes of core voltage and
frequency over to the chain. It acts on changes only: what was asked for once
is not asked for again until the setting changes. Where the settings come from and
who carries a change out is up to the surroundings, so the same look serves a chain
at work and one under observation.
-/

namespace ChipChain

/-- What the manager remembers between two looks. -/
structure Manager where
  requested : Frequency
  reached : Frequency
  voltage : Option UInt16
  deriving DecidableEq, Repr, Inhabited

namespace Manager

open Routine

def source : String := "management"

def pollInterval : Nat := 1800

/-- A manager for a chain that stands at a frequency. -/
def startingAt (f : Frequency) : Manager :=
  ⟨f, f, none⟩

def wantedVoltage (family : Family) (store : Store) : UInt16 :=
  store.wordOr Store.Key.voltage family.defaultVoltage

/-- The frequency that the settings ask for: a number above zero, or else what was asked for last. -/
def wantedFrequency (m : Manager) (store : Store) : Frequency :=
  match store.number? Store.Key.frequency with
  | some mhz => if mhz.isPositive then .ofMhz mhz else m.requested
  | none => m.requested

def afterVoltage (m : Manager) (voltage : UInt16) : Manager :=
  { m with voltage := some voltage }

def afterFrequency (m : Manager) (wanted : Frequency) (moved : Bool) : Manager :=
  { m with requested := wanted, reached := if moved then wanted else m.reached }

def volts (voltage : UInt16) : Single :=
  Single.ofRatio voltage.toNat 1000

/-- What a manager asks of its surroundings. -/
structure Surroundings (μ : Type → Type) where
  note : Entry → μ Unit
  settings : μ Store
  regulate : Single → μ RegulatorAnswer
  /-- Move the chain's clock; whether that succeeded. -/
  setFrequency : Frequency → μ Bool

section

variable {μ : Type → Type} [Monad μ]

/-- Ask the regulator for a voltage, and report what came of it. -/
def applyVoltage (s : Surroundings μ) (voltage : UInt16) : μ Unit := do
  let volts := volts voltage
  let shown := logNumber volts.toFloat
  match ← s.regulate volts with
  | .absent =>
    s.note ⟨.debug, source, "No core voltage regulator, ignoring setting",
      [("voltage_mv", toString voltage)]⟩
  | .done => s.note ⟨.info, source, "Setting core voltage", [("volts", shown)]⟩
  | .failed reason =>
    s.note ⟨.info, source, "Setting core voltage", [("volts", shown)]⟩
    s.note ⟨.error, source, "Failed to set core voltage", [("volts", shown), ("error", reason)]⟩

/-- Carry a voltage that the settings ask for over to the regulator, if it is not the last one. -/
def followVoltage (s : Surroundings μ) (family : Family) (m : Manager) : μ Manager := do
  let voltage := wantedVoltage family (← s.settings)
  if m.voltage ≠ some voltage then applyVoltage s voltage
  return m.afterVoltage voltage

/-- Carry a frequency that the settings ask for over to the chain, if it is not the last one. -/
def followFrequency (s : Surroundings μ) (m : Manager) : μ Manager := do
  let wanted := m.wantedFrequency (← s.settings)
  if wanted = m.requested then return m
  else
    s.note ⟨.info, source, "Configured frequency changed",
      [("from", m.requested.text), ("to", wanted.text)]⟩
    let moved ← s.setFrequency wanted
    return m.afterFrequency wanted moved

/-- One look at the settings: first the voltage, then the frequency. -/
def look (s : Surroundings μ) (family : Family) (m : Manager) : μ Manager := do
  let m ← m.followVoltage s family
  m.followFrequency s

end

/-- The surroundings of a manager that looks after a chain. -/
def surroundings {ε : Type} (c : Controller) : Surroundings (Routine ε) where
  note := Routine.note
  settings := readSettings
  regulate := Routine.regulate
  setFrequency := c.setFrequency

def poll {ε : Type} (c : Controller) (m : Manager) : Routine ε Manager :=
  m.look (surroundings c) c.driver.family

def begin {ε : Type} (c : Controller) (m : Manager) : Routine ε Manager := do
  note ⟨.debug, source, "ASIC management started", [("interval_ms", toString pollInterval)]⟩
  m.poll c

end Manager

end ChipChain
