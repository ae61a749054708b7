import ChipChain.Daemon.Startup
import ChipChain.Routine.World

/-!
# The daemon at work

A started daemon is four parties that share one world: the manager watches the
settings, the reader takes results, the dispatcher hands out work, and the
supervisor starts them and waits for them to stop. Each party has a turn, one
action or all it can do at once, and a way to quit once the daemon shuts down.
Any order of turns and quits is a run; which one happens is decided elsewhere.
-/

namespace ChipChain

namespace Routine

variable {ε α : Type}

def single : Routine ε α → World → Progress ε α × World
  | done value, w => (.ended (.ok value), w)
  | fail error, w => (.ended (.error error), w)
  | act action next, w =>
    let (answer, duration, w) := w.perform action
    (.waiting duration (next answer), w)

end Routine

/-- How much of a routine happens in one turn. -/
abbrev Pace := ∀ ⦃ε α : Type⦄, Routine ε α → World → Routine.Progress ε α × World

def Pace.stepwise : Pace := fun _ _ => Routine.single

/-- Everything up to the next wait in one turn. -/
def Pace.atOnce : Pace := fun _ _ => Routine.advance

structure Activity (ε α : Type) where
  wake : Nat
  rest : Routine ε α

inductive ManagerTask where
  | polling (a : Activity Empty Manager)
  | resting (wake : Nat) (m : Manager)
  | stopped

inductive ReaderTask where
  | reading (a : Activity ChainError Unit) (breakable : Bool)
  | stopped

inductive DispatcherTask where
  /-- Waiting for a message since a time. -/
  | idle (since : Nat)
  /-- Following a message; whether a rest comes after it. -/
  | handling (a : Activity ChainError Bool)
  | resting (wake : Nat)
  | stopped

inductive SupervisorTask where
  | starting (a : Activity DaemonError Float)
  /-- Waiting for a reason to stop; a deadline is one. -/
  | watching (deadline : Option Nat)
  | standing
  | stopping
  | ended (time : Nat) (outcome : Except DaemonError Unit)

/-- What happens to a daemon from outside. -/
inductive Event where
  | change (f : World → World)
  | message (m : WorkMessage)
  | closeWork
  | shutdown
  | stop

structure Machine where
  world : World
  inbox : List WorkMessage := []
  sourceOpen : Bool := true
  shutdown : Bool := false
  fault : Bool := false
  jobRest : Nat := 0
  manager : ManagerTask := .stopped
  reader : ReaderTask := .stopped
  dispatcher : DispatcherTask := .stopped
  supervisor : SupervisorTask
  startedAt : Option Nat := none
  liveAtStop : Option Nat := none

namespace Daemon

open Routine

def inboxCapacity : Nat := 16

def readOnce (d : Daemon) : Routine ChainError Unit := do
  match ← d.controller.driver.readShare with
  | none => return ()
  | some share =>
    note ⟨.info, source, "Nonce found",
      [("job_id", toString share.jobId), ("pool_job", share.job.poolJobId),
       ("nonce", Bytes.hexNumber 8 share.nonce.toNat),
       ("version", Bytes.hexNumber 8 share.version.toNat)]⟩
    if ← deliver ⟨share.job, share⟩ then return ()
    else note (say .debug "Result consumer gone")

/-- Follow a message; whether a rest comes after it. -/
def handle (d : Daemon) : WorkMessage → Routine ChainError Bool
  | .work job => do
    let id ← d.controller.driver.sendWork job
    note ⟨.debug, source, "Job dispatched", [("job_id", toString id)]⟩
    return true
  | .cleanJobs => do
    let live ← countLive
    note ⟨.info, source, "Invalidating outstanding jobs", [("live", toString live)]⟩
    clearJobs
    return false

end Daemon

inductive Party where
  | manager
  | reader
  | dispatcher
  | supervisor
  deriving DecidableEq, Repr

namespace Machine

def now (m : Machine) : Nat := m.world.clock

def note (m : Machine) (entry : Entry) : Machine :=
  { m with world := m.world.record entry }

/-! ## Leaving -/

def dismissManager (m : Machine) : Machine :=
  { m with manager := .stopped }.note ⟨.debug, Manager.source, "ASIC management stopped", []⟩

def dismissReader (m : Machine) : Machine :=
  { m with reader := .stopped }.note (Daemon.say .debug "Result task stopped")

/-- The dispatcher leaves, and nobody takes messages any more. -/
def dismissDispatcher (m : Machine) : Machine :=
  { m with dispatcher := .stopped, inbox := [] }.note (Daemon.say .debug "Dispatch task stopped")

/-- The chain has failed: report it, and raise the alarm. -/
def raiseFault (m : Machine) (message : String) (e : ChainError) : Machine :=
  { m with fault := true }.note ⟨.error, Daemon.source, message, [("error", e.message)]⟩

def deserted (m : Machine) : Bool :=
  match m.manager, m.reader, m.dispatcher with
  | .stopped, .stopped, .stopped => true
  | _, _, _ => false

def beginStop (m : Machine) : Machine :=
  { m.note (Daemon.say .trace "Shutting down.") with shutdown := true, supervisor := .stopping }

/-- A party that waits leaves once the daemon shuts down. -/
def quit (m : Machine) : Party → Option Machine
  | .manager =>
    match m.manager with
    | .resting _ _ => if m.shutdown then some m.dismissManager else none
    | _ => none
  | .reader =>
    match m.reader with
    | .reading _ true => if m.shutdown then some m.dismissReader else none
    | _ => none
  | .dispatcher =>
    match m.dispatcher with
    | .idle _ | .resting _ => if m.shutdown then some m.dismissDispatcher else none
    | _ => none
  | .supervisor => none

/-! ## Turns -/

/-- The chain is up: the parties take their places. -/
def launch (d : Daemon) (interval : Float) (m : Machine) : Machine :=
  let m := { m with
    startedAt := some m.now
    jobRest := Daemon.restMs interval
    manager := .polling ⟨m.now, (Manager.startingAt d.settings.frequency).begin d.controller⟩
    reader := .reading ⟨m.now, d.readOnce⟩ true
    supervisor := .standing }
  let m :=
    if d.hasWork then { m with dispatcher := .idle m.now }
    else m.note (Daemon.say .debug "No work source; listening for results only")
  if d.selfRunning then
    let m := m.note (Daemon.say .info "Started.")
    let m := m.note (Daemon.say .info "For frame-level debugging, set RUST_LOG=bm13xx_asic=trace")
    { m with supervisor := .watching (d.listen.map (m.now + ·)) }
  else m

def managerTurn (d : Daemon) (pace : Pace) (m : Machine) : Option Machine :=
  match m.manager with
  | .polling a =>
    if m.now < a.wake then none
    else
      let (progress, world) := pace a.rest m.world
      let manager : ManagerTask :=
        match progress with
        | .ended (.ok manager) => .resting (m.now + Manager.pollInterval) manager
        | .ended (.error e) => nomatch e
        | .waiting ms rest => .polling ⟨m.now + ms, rest⟩
      some { m with world, manager }
  | .resting wake manager =>
    if m.now < wake then none
    else some { m with manager := .polling ⟨m.now, manager.poll d.controller⟩ }
  | .stopped => none

def readerTurn (d : Daemon) (pace : Pace) (m : Machine) : Option Machine :=
  match m.reader with
  | .reading a _ =>
    if m.now < a.wake then none
    else
      let (progress, world) := pace a.rest m.world
      let m := { m with world }
      match progress with
      | .ended (.ok ()) => some { m with reader := .reading ⟨m.now, d.readOnce⟩ true }
      | .ended (.error e) => some (m.raiseFault "Result reader lost the chain" e).dismissReader
      | .waiting ms rest => some { m with reader := .reading ⟨m.now + ms, rest⟩ (ms != 0) }
  | .stopped => none

def dispatcherTurn (d : Daemon) (pace : Pace) (m : Machine) : Option Machine :=
  match m.dispatcher with
  | .idle _ =>
    match m.inbox with
    | message :: inbox =>
      some { m with inbox, dispatcher := .handling ⟨m.now, d.handle message⟩ }
    | [] =>
      if m.sourceOpen then none
      else some (m.note (Daemon.say .debug "Work source closed")).dismissDispatcher
  | .handling a =>
    if m.now < a.wake then none
    else
      let (progress, world) := pace a.rest m.world
      let m := { m with world }
      match progress with
      | .ended (.ok true) => some { m with dispatcher := .resting (m.now + m.jobRest) }
      | .ended (.ok false) => some { m with dispatcher := .idle m.now }
      | .ended (.error e) => some (m.raiseFault "Failed to dispatch job" e).dismissDispatcher
      | .waiting ms rest => some { m with dispatcher := .handling ⟨m.now + ms, rest⟩ }
  | .resting wake => if m.now < wake then none else some { m with dispatcher := .idle m.now }
  | .stopped => none

def supervisorTurn (d : Daemon) (pace : Pace) (m : Machine) : Option Machine :=
  match m.supervisor with
  | .starting a =>
    if m.now < a.wake then none
    else
      let (progress, world) := pace a.rest m.world
      let m := { m with world }
      match progress with
      | .ended (.ok interval) => some (m.launch d interval)
      | .ended (.error e) => some { m with supervisor := .ended m.now (.error e) }
      | .waiting ms rest => some { m with supervisor := .starting ⟨m.now + ms, rest⟩ }
  | .watching deadline =>
    if m.shutdown || m.fault then some m.beginStop
    else
      match deadline with
      | some time =>
        if m.now < time then none
        else some (m.note (Daemon.say .info "Listen period elapsed")).beginStop
      | none => none
  | .stopping =>
    if !m.deserted then none
    else if !d.selfRunning then some { m with supervisor := .ended m.now (.ok ()) }
    else if m.fault then some { m with supervisor := .ended m.now (.error .chainSilent) }
    else some { m.note (Daemon.say .info "Exiting.") with supervisor := .ended m.now (.ok ()) }
  | .standing => none
  | .ended _ _ => none

/-- A party's turn, if there is something for it to do now. -/
def turn (d : Daemon) (pace : Pace) (m : Machine) : Party → Option Machine
  | .manager => m.managerTurn d pace
  | .reader => m.readerTurn d pace
  | .dispatcher => m.dispatcherTurn d pace
  | .supervisor => m.supervisorTurn d pace

/-! ## Events -/

/-- A message can no longer be sent, or nobody will ever take it. -/
def unheard (d : Daemon) (m : Machine) : Bool :=
  !m.sourceOpen ||
    match m.dispatcher with
    | .stopped => m.startedAt.isSome || !d.hasWork
    | _ => false

/-- What an event does; a message finds no room in a full inbox, and is lost where nobody hears
it. -/
def meet (d : Daemon) (m : Machine) : Event → Option Machine
  | .change f => some { m with world := f m.world }
  | .message message =>
    if m.unheard d then some m
    else if m.inbox.length < Daemon.inboxCapacity then
      some { m with inbox := m.inbox ++ [message] }
    else none
  | .closeWork => some { m with sourceOpen := false }
  | .shutdown => some { m with shutdown := true }
  | .stop => some { m.beginStop with liveAtStop := some m.world.ledger.jobs.liveCount }

end Machine

end ChipChain
