import ChipChain.Daemon.Machine

/-!
# Running a daemon by the clock

One particular run of a machine: everything that can happen at an instant
happens before the clock moves, and the clock moves straight to the next time
at which something can happen. Events come first, then the supervisor, then
parties that leave, then the rest.
-/

namespace ChipChain

/-- A machine with the events that are still to come, in order of time. -/
structure Scenario where
  machine : Machine
  events : List (Nat × Event)

namespace Machine

/-- Since when a party has been waiting in a place that it can leave. -/
def waitingSince (m : Machine) : Party → Option Nat
  | .manager =>
    match m.manager with
    | .resting wake _ => some (wake - Manager.pollInterval)
    | _ => none
  | .reader =>
    match m.reader with
    | .reading a true => some (if m.now < a.wake then a.wake - Bus.workWindow else m.now)
    | _ => none
  | .dispatcher =>
    match m.dispatcher with
    | .idle since => some since
    | .resting wake => some (wake - m.jobRest)
    | _ => none
  | .supervisor => none

/-- The parties that shutting down makes leave, those that have waited longest first. -/
def leavers (m : Machine) : List Party :=
  let waiting := [Party.manager, .reader, .dispatcher].filterMap fun party =>
    (m.waitingSince party).map fun since => (since, party)
  (waiting.mergeSort fun x y => x.1 ≤ y.1).map (·.2)

def wakes (m : Machine) : List Nat :=
  (match m.supervisor with
    | .starting a => [a.wake]
    | .watching (some deadline) => [deadline]
    | _ => []) ++
  (match m.manager with
    | .polling a => [a.wake]
    | .resting wake _ => [wake]
    | .stopped => []) ++
  (match m.reader with
    | .reading a _ => [a.wake]
    | .stopped => []) ++
  (match m.dispatcher with
    | .handling a => [a.wake]
    | .resting wake => [wake]
    | _ => [])

def hasEnded (m : Machine) : Bool :=
  match m.supervisor with
  | .ended _ _ => true
  | _ => false

def endedAt? (m : Machine) : Option Nat :=
  match m.supervisor with
  | .ended time _ => some time
  | _ => none

end Machine

namespace Scenario

/-- Events wait until a daemon that does not run by itself has been started. -/
def eventsHeld (d : Daemon) (s : Scenario) : Bool :=
  !d.selfRunning && (match s.machine.supervisor with
    | .starting _ => true
    | _ => false)

/-- The next event that is due, if there is room for it. -/
def meetEvent (d : Daemon) (s : Scenario) : Option Scenario :=
  match s.events with
  | (time, event) :: events =>
    if s.eventsHeld d || s.machine.now < time then none
    else (s.machine.meet d event).map fun machine => ⟨machine, events⟩
  | [] => none

def next? (d : Daemon) (s : Scenario) : Option Scenario :=
  let m := s.machine
  let moved (m : Option Machine) : Option Scenario := m.map fun machine => { s with machine }
  if m.hasEnded then none
  else
    s.meetEvent d <|>
    moved (m.turn d .atOnce .supervisor) <|>
    moved (m.leavers.findSome? m.quit) <|>
    moved ([Party.manager, .reader, .dispatcher].findSome? (m.turn d .atOnce))

def settle (d : Daemon) : (limit : Nat) → Scenario → Scenario
  | 0, s => s
  | limit + 1, s =>
    match s.next? d with
    | some s => settle d limit s
    | none => s

/-- More things than can happen at one instant: every reading takes a reply or waits, and every
message and every event is met once. -/
def busiest (s : Scenario) : Nat :=
  3 * s.machine.world.line.replies.length + 6 * (s.machine.inbox.length + s.events.length) + 32

/-- Let everything happen that happens at this instant: first the events that are due, which may
bring replies and messages, then all the rest. -/
def instant (d : Daemon) (s : Scenario) : Scenario :=
  let s := settle d (s.events.length + 1) s
  settle d s.busiest s

def nextTime? (d : Daemon) (s : Scenario) : Option Nat :=
  let event :=
    match s.events with
    | (time, _) :: _ => if s.eventsHeld d then [] else [time]
    | [] => []
  ((event ++ s.machine.wakes).filter (s.machine.now < ·)).min?

/-- Run a scenario until the daemon ends, nothing more can happen, or the clock would pass the
horizon. -/
def run (d : Daemon) (horizon now : Nat) (s : Scenario) : Scenario :=
  let s := s.instant d
  if s.machine.hasEnded then s
  else
    match s.nextTime? d with
    | none => s
    | some time =>
      if now < time ∧ time ≤ horizon then
        let world := { s.machine.world with clock := time }
        run d horizon time { s with machine := { s.machine with world } }
      else s
termination_by horizon - now

end Scenario

/-! ## Whole runs -/

/-- No run lasts longer than this many milliseconds. -/
def Scenario.horizon : Nat := Nat.pow 2 64

/-- A daemon that is about to start the chain. -/
def Daemon.scenario (d : Daemon) (world : World) (events : List (Nat × Event)) : Scenario :=
  ⟨{ world, supervisor := .starting ⟨world.clock, d.startUp⟩ }, events⟩

/-- A manager alone, at work on a chain that stands at a frequency. -/
def Daemon.managerScenario (d : Daemon) (world : World) (events : List (Nat × Event)) : Scenario :=
  ⟨{ world
     manager := .polling ⟨world.clock, (Manager.startingAt d.settings.frequency).begin d.controller⟩
     supervisor := .stopping }, events⟩

def Scenario.play (d : Daemon) (s : Scenario) : Machine :=
  (s.run d horizon s.machine.now).machine

end ChipChain
