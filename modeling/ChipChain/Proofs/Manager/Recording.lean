import ChipChain.Manager
import ChipChain.Proofs.Chain.Emission

/-!
# Looking with a record

A manager's look can be taken with a record of what it asks of the chain and of the
regulator. The record changes neither what the manager remembers nor the world
(`run_look_recorded`).
-/

namespace ChipChain

namespace Routine

variable {α : Type}

def finish (p : Routine Empty α) (w : World) : α × World :=
  match p.run w with
  | (.ok value, after) => (value, after)
  | (.error e, _) => e.elim

theorem finish_of_run {p : Routine Empty α} {w after : World} {value : α}
    (h : p.run w = (.ok value, after)) : p.finish w = (value, after) := by
  rw [finish, h]

end Routine

/-- Asked to move the clock, a controller asks its driver, reports before and after, and says whether
the driver succeeded. -/
theorem Controller.run_setFrequency_eq (c : Controller) (target : Frequency) (w : World) :
    ∃ asking telling : Entry, (c.setFrequency target : Routine Empty Bool).run w =
      (.ok ((c.driver.setFrequency target).run (w.record asking)).1.toBool,
        ((c.driver.setFrequency target).run (w.record asking)).2.record telling) := by
  let asking : Entry := ⟨.info, source, "Setting ASIC frequency", [("frequency", target.text)]⟩
  refine ⟨asking, ?_⟩
  rw [setFrequency, Routine.run_note_bind, Routine.run_bind, Routine.run_attempt, ← World.record]
  cases ((c.driver.setFrequency target).run (w.record asking)).1 <;> exact ⟨_, rfl⟩

namespace Manager

/-! ## Looking with a record -/

inductive Request where
  /-- A regulator that is there is asked for a voltage. -/
  | voltage (volts : Single)
  /-- The chain is asked for a frequency, and gets there or does not. -/
  | clock (target : Frequency) (moved : Bool)
  deriving DecidableEq, Repr

def Request.volts? : Request → Option Single
  | voltage volts => some volts
  | clock _ _ => none

def Request.target? : Request → Option Frequency
  | voltage _ => none
  | clock target _ => some target

def Request.reached? : Request → Option Frequency
  | clock target true => some target
  | _ => none

/-- The surroundings of a manager that looks after a chain, with a record of its requests. -/
def recorded (c : Controller) : Surroundings (StateT (List Request) (Routine Empty)) where
  note entry := StateT.lift (Routine.note entry)
  settings := StateT.lift Routine.readSettings
  regulate volts := do
    let answer ← StateT.lift (Routine.regulate volts)
    if answer ≠ .absent then modify (· ++ [.voltage volts])
    return answer
  setFrequency target := do
    let moved ← StateT.lift (c.setFrequency target)
    modify (· ++ [.clock target moved])
    return moved

def regulated (regulator : Regulator) (voltage : UInt16) : List Request :=
  if regulator = .absent then [] else [.voltage (volts voltage)]

theorem run_recorded_note_bind {α : Type} (c : Controller) (entry : Entry)
    (f : Unit → StateT (List Request) (Routine Empty) α) (told : List Request) (w : World) :
    (((recorded c).note entry >>= f).run told).run w =
      ((f ()).run told).run { w with journal := w.journal.push entry } := rfl

theorem run_applyVoltage (c : Controller) (voltage : UInt16) (told : List Request) (w : World) :
    ∃ journal volts,
      (applyVoltage (surroundings (ε := Empty) c) voltage).run w =
        (.ok (), { w with journal, volts }) ∧
      ((applyVoltage (recorded c) voltage).run told).run w =
        (.ok ((), told ++ regulated w.regulator voltage), { w with journal, volts }) := by
  rcases w with ⟨clock, line, ledger, ramp, journal, settings, regulator, volts, consumer, found⟩
  cases regulator with
  | absent => exact ⟨_, _, rfl, by rw [regulated, if_pos rfl, List.append_nil]; rfl⟩
  | working => exact ⟨_, _, rfl, by rw [regulated, if_neg nofun]; rfl⟩
  | failing reason => exact ⟨_, _, rfl, by rw [regulated, if_neg nofun]; rfl⟩

def voltageRequests (family : Family) (m : Manager) (w : World) : List Request :=
  if m.voltage = some (wantedVoltage family w.settings) then []
  else regulated w.regulator (wantedVoltage family w.settings)

theorem run_followVoltage (c : Controller) (family : Family) (m : Manager) (told : List Request)
    (w : World) : ∃ journal volts,
      (m.followVoltage (surroundings (ε := Empty) c) family).run w =
        (.ok (m.afterVoltage (wantedVoltage family w.settings)), { w with journal, volts }) ∧
      ((m.followVoltage (recorded c) family).run told).run w =
        (.ok (m.afterVoltage (wantedVoltage family w.settings),
          told ++ m.voltageRequests family w), { w with journal, volts }) := by
  let voltage := wantedVoltage family w.settings
  have hreal : (m.followVoltage (surroundings (ε := Empty) c) family).run w =
      (if m.voltage ≠ some voltage then
        applyVoltage (surroundings c) voltage >>= fun _ => pure (m.afterVoltage voltage)
      else pure (m.afterVoltage voltage)).run w := rfl
  have hrecorded : ((m.followVoltage (recorded c) family).run told).run w =
      ((if m.voltage ≠ some voltage then
        applyVoltage (recorded c) voltage >>= fun _ => pure (m.afterVoltage voltage)
      else pure (m.afterVoltage voltage)).run told).run w := rfl
  rw [hreal, hrecorded]
  by_cases hsame : m.voltage = some voltage
  · refine ⟨w.journal, w.volts, ?_, ?_⟩
    · rw [if_neg (not_not.2 hsame)]
      rfl
    · rw [if_neg (not_not.2 hsame), voltageRequests, if_pos hsame, List.append_nil]
      rfl
  · obtain ⟨journal, volts, happly, htold⟩ := run_applyVoltage c voltage told w
    refine ⟨journal, volts, ?_, ?_⟩
    · rw [if_pos hsame, Routine.run_bind, happly]
      rfl
    · rw [if_pos hsame, StateT.run_bind, Routine.run_bind, htold, voltageRequests, if_neg hsame]
      rfl

/-- Moving the clock on request ends well, whether the chain got there or not. -/
theorem run_setFrequency (c : Controller) (target : Frequency) (told : List Request) (w : World) :
    ∃ moved after,
      (c.setFrequency target : Routine Empty Bool).run w = (.ok moved, after) ∧
      (((recorded c).setFrequency target).run told : Routine Empty _).run w =
        (.ok (moved, told ++ [.clock target moved]), after) := by
  obtain ⟨asking, telling, hmove⟩ := c.run_setFrequency_eq target w
  refine ⟨_, _, hmove, ?_⟩
  rw [recorded, StateT.run_bind, Routine.run_bind, StateT.run_lift, Routine.run_bind, hmove]
  rfl

/-- What following the frequency asks for, if the chain gets there or not. -/
def clockRequests (m : Manager) (store : Store) (moved : Bool) : List Request :=
  if m.wantedFrequency store = m.requested then []
  else [.clock (m.wantedFrequency store) moved]

/-- What a manager remembers after following the frequency. -/
def followed (m : Manager) (store : Store) (moved : Bool) : Manager :=
  if m.wantedFrequency store = m.requested then m
  else m.afterFrequency (m.wantedFrequency store) moved

/-- What following the frequency leaves: no more than reports and requests for voltages, or what
moving the clock leaves. -/
inductive Leaves (c : Controller) (m : Manager) (w : World) (moved : Bool) : World → Prop
  | unmoved (hsame : m.wantedFrequency w.settings = m.requested) (journal : Journal)
      (volts : Array (Nat × Single)) : Leaves c m w moved { w with journal, volts }
  | moved (hnew : m.wantedFrequency w.settings ≠ m.requested) (journal : Journal)
      (volts : Array (Nat × Single)) {after : World}
      (hrun : (c.setFrequency (m.wantedFrequency w.settings) : Routine Empty Bool).run
        { w with journal, volts } = (.ok moved, after)) : Leaves c m w moved after

theorem run_followFrequency (c : Controller) (m : Manager) (told : List Request) (w : World) :
    ∃ moved after,
      (m.followFrequency (surroundings (ε := Empty) c)).run w =
        (.ok (m.followed w.settings moved), after) ∧
      ((m.followFrequency (recorded c)).run told).run w =
        (.ok (m.followed w.settings moved, told ++ m.clockRequests w.settings moved), after) ∧
      Leaves c m w moved after := by
  let wanted := m.wantedFrequency w.settings
  let entry : Entry := ⟨.info, source, "Configured frequency changed",
    [("from", m.requested.text), ("to", wanted.text)]⟩
  have hreal : (m.followFrequency (surroundings (ε := Empty) c)).run w =
      (if wanted = m.requested then pure m
      else do
        Routine.note entry
        let moved ← c.setFrequency wanted
        return m.afterFrequency wanted moved : Routine Empty Manager).run w := rfl
  have hrecorded : ((m.followFrequency (recorded c)).run told).run w =
      ((if wanted = m.requested then pure m
      else do
        (recorded c).note entry
        let moved ← (recorded c).setFrequency wanted
        return m.afterFrequency wanted moved).run told).run w := rfl
  rw [hreal, hrecorded]
  by_cases hsame : wanted = m.requested
  · refine ⟨false, w, ?_, ?_, .unmoved hsame w.journal w.volts⟩
    · rw [followed, if_pos hsame, if_pos hsame]
      rfl
    · rw [followed, clockRequests, if_pos hsame, if_pos hsame, if_pos hsame, List.append_nil]
      rfl
  · obtain ⟨moved, after, hmove, htold⟩ :=
      run_setFrequency c wanted told { w with journal := w.journal.push entry }
    refine ⟨moved, after, ?_, ?_, .moved hsame _ w.volts hmove⟩
    · rw [followed, if_neg hsame, if_neg hsame, Routine.run_note_bind, Routine.run_bind, hmove]
      rfl
    · rw [followed, clockRequests, if_neg hsame, if_neg hsame, if_neg hsame,
        run_recorded_note_bind, StateT.run_bind, Routine.run_bind, htold]
      rfl

/-! ## One look -/

def lookRequests (family : Family) (m : Manager) (w : World) (moved : Bool) : List Request :=
  m.voltageRequests family w ++ m.clockRequests w.settings moved

/-- What a manager remembers after one look. -/
def looked (family : Family) (m : Manager) (store : Store) (moved : Bool) : Manager :=
  (m.afterVoltage (wantedVoltage family store)).followed store moved

/-- The record of a look changes neither what the manager remembers nor the world. -/
theorem run_look_recorded (c : Controller) (m : Manager) (told : List Request) (w : World) :
    ∃ moved after,
      (m.poll c : Routine Empty Manager).run w =
        (.ok (m.looked c.driver.family w.settings moved), after) ∧
      ((m.look (recorded c) c.driver.family).run told).run w =
        (.ok (m.looked c.driver.family w.settings moved,
          told ++ m.lookRequests c.driver.family w moved), after) ∧
      Leaves c m w moved after := by
  let family := c.driver.family
  let m' := m.afterVoltage (wantedVoltage family w.settings)
  obtain ⟨journal, volts, hvoltage, hvoltage'⟩ :=
    run_followVoltage c family m told w
  obtain ⟨moved, after, hclock, hclock', hleaves⟩ := run_followFrequency c m'
    (told ++ m.voltageRequests family w) { w with journal, volts }
  refine ⟨moved, after, ?_, ?_, ?_⟩
  · rw [poll, look, Routine.run_bind, hvoltage]
    exact hclock
  · rw [look, StateT.run_bind, Routine.run_bind, hvoltage', lookRequests, ← List.append_assoc]
    exact hclock'
  · cases hleaves with
    | unmoved hsame journal volts => exact Leaves.unmoved (m := m) (w := w) hsame journal volts
    | moved hnew journal volts hrun => exact Leaves.moved (m := m) (w := w) hnew journal volts hrun

end Manager

end ChipChain
