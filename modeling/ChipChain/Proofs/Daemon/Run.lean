import ChipChain.Proofs.Daemon.Parties

/-!
# Runs of a daemon

The four parties take turns of one action each, leave, meet events, and time
passes, in any order. A run is told by its occurrences: every move with the
machine that it found. From the occurrences one reads off what the reader has in
hand, how far the dispatcher has come, what went out and what was delivered.
-/

namespace ChipChain

namespace Machine

inductive Move where
  | turn (party : Party)
  | quit (party : Party)
  | meet (event : Event)
  | elapse (ms : Nat)

def make (d : Daemon) (m : Machine) : Move → Option Machine
  | .turn party => m.turn d .stepwise party
  | .quit party => m.quit party
  | .meet event => m.meet d event
  | .elapse ms => some { m with world := m.world.after ms }

/-- The action that a party's turn would perform. -/
def next? (m : Machine) : Party → Option Action
  | .manager =>
    match m.manager with
    | .polling a => a.rest.head?
    | _ => none
  | .reader =>
    match m.reader with
    | .reading a _ => a.rest.head?
    | .stopped => none
  | .dispatcher =>
    match m.dispatcher with
    | .handling a => a.rest.head?
    | _ => none
  | .supervisor =>
    match m.supervisor with
    | .starting a => a.rest.head?
    | _ => none

/-- The message that the dispatcher's turn would take. -/
def message? (m : Machine) : Option WorkMessage :=
  match m.dispatcher with
  | .idle _ => m.inbox.head?
  | _ => none

end Machine

open Machine

/-! ## Occurrences -/

/-- A move, with the machine that it found. -/
structure Occurrence where
  machine : Machine
  move : Move

namespace Occurrence

def deed? (o : Occurrence) : Option Action :=
  match o.move with
  | .turn party => o.machine.next? party
  | _ => none

/-- The action that was performed, if this party did it. -/
def deedOf? (o : Occurrence) (party : Party) : Option Action :=
  match o.move with
  | .turn mover => if mover = party then o.machine.next? party else none
  | _ => none

def answer (o : Occurrence) (action : Action) : action.Answer :=
  (o.machine.world.perform action).1

def taken? (o : Occurrence) : Option WorkMessage :=
  match o.move with
  | .turn .dispatcher => o.machine.message?
  | _ => none

/-- The job that is live under an identifier here. -/
def live? (o : Occurrence) (id : UInt8) : Option Job :=
  o.machine.world.ledger.jobs.get? id

def hear (model : Model) (h : Hearing) (o : Occurrence) : Hearing :=
  match o.deedOf? .reader with
  | some action => h.next model action (o.answer action)
  | none => h

def advance (e : Errand) (o : Occurrence) : Errand :=
  match o.taken? with
  | some message => .ofMessage message
  | none =>
    match o.deedOf? .dispatcher with
    | some action => e.next action (o.answer action)
    | none => e

def transmitted (o : Occurrence) : List Bytes :=
  match o.deed? with
  | some (.transmit frame) => if Except.isOk (o.answer (.transmit frame)) then [frame] else []
  | _ => []

/-- The results that the reader delivered here: none or one. -/
def delivered (o : Occurrence) : List Found :=
  match o.deedOf? .reader with
  | some (.deliver found) => [found]
  | _ => []

end Occurrence

/-- The result that the reader has in hand, ready to be delivered. -/
def Hearing.pending (model : Model) : Hearing → List Found
  | .passed frame job => [model.foundIn frame job]
  | _ => []

/-- The result that came to be due here: none or one. -/
def Occurrence.due (model : Model) (h : Hearing) (o : Occurrence) : List Found :=
  match o.deedOf? .reader with
  | some (.screen nonce) => (h.afterScreen (o.answer (.screen nonce))).pending model
  | _ => []

/-! ## What occurrences tell -/

def hearing (model : Model) (past : List Occurrence) : Hearing :=
  past.foldl (Occurrence.hear model) .nothing

def errand (past : List Occurrence) : Errand :=
  past.foldl Occurrence.advance .idle

/-- The results of all frames that were intact, had a live job when it was looked up, and passed
the screen. -/
def due (model : Model) (h : Hearing) : List Occurrence → List Found
  | [] => []
  | o :: rest => o.due model h ++ due model (o.hear model h) rest

def delivered (past : List Occurrence) : List Found :=
  past.flatMap Occurrence.delivered

def transmitted (past : List Occurrence) : List Bytes :=
  past.flatMap Occurrence.transmitted

section

variable (model : Model) (past : List Occurrence) (o : Occurrence)

theorem hearing_concat : hearing model (past ++ [o]) = o.hear model (hearing model past) := by
  rw [hearing, List.foldl_append]
  rfl

theorem errand_concat : errand (past ++ [o]) = o.advance (errand past) := by
  rw [errand, List.foldl_append]
  rfl

theorem due_concat (h : Hearing) :
    due model h (past ++ [o]) =
      due model h past ++ o.due model (past.foldl (Occurrence.hear model) h) := by
  induction past generalizing h with
  | nil => exact List.append_nil _
  | cons first rest ih =>
      rw [List.cons_append, due, due, ih, List.append_assoc]
      rfl

theorem delivered_concat : delivered (past ++ [o]) = delivered past ++ o.delivered := by
  rw [delivered, List.flatMap_append, List.flatMap_singleton]
  rfl

theorem transmitted_concat : transmitted (past ++ [o]) = transmitted past ++ o.transmitted := by
  rw [transmitted, List.flatMap_append, List.flatMap_singleton]
  rfl

end

/-! ## Running -/

/-- Make the moves in order: the occurrences, and the machine afterwards. -/
def Machine.run (d : Daemon) (m : Machine) : List Move → Option (List Occurrence × Machine)
  | [] => some ([], m)
  | move :: rest =>
    (m.make d move).bind fun m' =>
      (m'.run d rest).map fun (later, last) => (⟨m, move⟩ :: later, last)

namespace Machine

variable {d : Daemon} {m last : Machine} {later : List Occurrence}

theorem run_cons_eq_some {move : Move} {rest : List Move}
    (h : m.run d (move :: rest) = some (later, last)) :
    ∃ m' tail, m.make d move = some m' ∧ m'.run d rest = some (tail, last) ∧
      later = ⟨m, move⟩ :: tail := by
  rw [run, Option.bind_eq_some_iff] at h
  obtain ⟨m', hmake, hrest⟩ := h
  obtain ⟨⟨tail, last'⟩, hrun, heq⟩ := Option.map_eq_some_iff.1 hrest
  cases heq
  exact ⟨m', tail, hmake, hrun, rfl⟩

theorem forall_move_of_run {p : Move → Prop} {moves : List Move} (h : ∀ move ∈ moves, p move)
    (hrun : m.run d moves = some (later, last)) : ∀ o ∈ later, p o.move := by
  induction moves generalizing m later with
  | nil =>
      cases hrun
      exact List.forall_mem_nil _
  | cons move rest ih =>
      obtain ⟨m', tail, -, hrest, rfl⟩ := run_cons_eq_some hrun
      exact List.forall_mem_cons.2
        ⟨h move (by simp), ih (fun move hmem => h move (by simp [hmem])) hrest⟩

/-- What every allowed occurrence keeps holds after a run of such occurrences. -/
theorem run_keeps {P : List Occurrence → Machine → Prop} {allowed : Occurrence → Prop}
    (hstep : ∀ {past m move m'}, P past m → allowed ⟨m, move⟩ → m.make d move = some m' →
      P (past ++ [⟨m, move⟩]) m')
    {past : List Occurrence} (h : P past m) {moves : List Move}
    (hallowed : ∀ o ∈ later, allowed o) (hrun : m.run d moves = some (later, last)) :
    P (past ++ later) last := by
  induction moves generalizing past m later with
  | nil =>
      cases hrun
      simpa using h
  | cons move rest ih =>
      obtain ⟨m', tail, hmake, hrest, rfl⟩ := run_cons_eq_some hrun
      have hthen := hstep h (hallowed _ (by simp)) hmake
      have htail := ih hthen (fun o hmem => hallowed o (by simp [hmem])) hrest
      simpa using htail

theorem run_split {moves : List Move} {before after : List Occurrence}
    (h : m.run d moves = some (before ++ after, last)) :
    ∃ first rest reached, moves = first ++ rest ∧ m.run d first = some (before, reached) ∧
      reached.run d rest = some (after, last) := by
  induction before generalizing m moves with
  | nil => exact ⟨[], moves, m, rfl, rfl, h⟩
  | cons earlier before ih =>
      cases moves with
      | nil => cases h
      | cons move rest =>
          obtain ⟨m', tail, hmake, hrun, heq⟩ := run_cons_eq_some h
          cases heq
          obtain ⟨first, rest, reached, rfl, hfirst, hrest⟩ := ih hrun
          refine ⟨move :: first, rest, reached, rfl, ?_, hrest⟩
          simp [run, hmake, hfirst]

/-- At an occurrence a run falls into the moves before it and those that go on from there. -/
theorem runs_of_split {moves : List Move} {before after : List Occurrence} {o : Occurrence}
    (h : m.run d moves = some (before ++ o :: after, last)) :
    ∃ first rest, moves = first ++ rest ∧ m.run d first = some (before, o.machine) ∧
      o.machine.run d rest = some (o :: after, last) := by
  obtain ⟨first, rest, reached, hmoves, hfirst, hrest⟩ := run_split h
  cases rest with
  | nil => cases hrest
  | cons move rest =>
      obtain ⟨m', tail, hmake, hrun, heq⟩ := run_cons_eq_some hrest
      cases heq
      exact ⟨first, move :: rest, hmoves, hfirst, hrest⟩

/-- What an occurrence finds is what the moves before it have made. -/
theorem run_of_split {moves : List Move} {before after : List Occurrence} {o : Occurrence}
    (h : m.run d moves = some (before ++ o :: after, last)) :
    ∃ first rest, moves = first ++ rest ∧ m.run d first = some (before, o.machine) := by
  obtain ⟨first, rest, hmoves, hfirst, -⟩ := runs_of_split h
  exact ⟨first, rest, hmoves, hfirst⟩

end Machine

/-! ## What a party can do -/

namespace Machine

inductive ManagerStep (d : Daemon) (m : Machine) : Machine → Prop
  | act {wake : Nat} {action : Action} {next : action.Answer → Routine Empty Manager}
      (hrest : m.manager = .polling ⟨wake, .act action next⟩) :
      ManagerStep d m
        { m with
          world := (m.world.perform action).2.2
          manager := .polling
            ⟨m.now + (m.world.perform action).2.1, next (m.world.perform action).1⟩ }
  | rest {wake : Nat} {manager : Manager} (hrest : m.manager = .polling ⟨wake, .done manager⟩) :
      ManagerStep d m { m with manager := .resting (m.now + Manager.pollInterval) manager }
  | poll {wake : Nat} {manager : Manager} (hresting : m.manager = .resting wake manager) :
      ManagerStep d m { m with manager := .polling ⟨m.now, manager.poll d.controller⟩ }

inductive ReaderStep (d : Daemon) (m : Machine) : Machine → Prop
  | act {wake : Nat} {action : Action} {next : action.Answer → Routine ChainError Unit}
      {breakable : Bool} (hrest : m.reader = .reading ⟨wake, .act action next⟩ breakable) :
      ReaderStep d m
        { m with
          world := (m.world.perform action).2.2
          reader := .reading
            ⟨(m.world.perform action).2.2.clock + (m.world.perform action).2.1,
              next (m.world.perform action).1⟩
            ((m.world.perform action).2.1 != 0) }
  | again {wake : Nat} {breakable : Bool}
      (hrest : m.reader = .reading ⟨wake, .done ()⟩ breakable) :
      ReaderStep d m { m with reader := .reading ⟨m.now, d.readOnce⟩ true }
  | lose {wake : Nat} {e : ChainError} {breakable : Bool}
      (hrest : m.reader = .reading ⟨wake, .fail e⟩ breakable) :
      ReaderStep d m (m.raiseFault "Result reader lost the chain" e).dismissReader

inductive SupervisorStep (d : Daemon) (m : Machine) : Machine → Prop
  | act {wake : Nat} {action : Action} {next : action.Answer → Routine DaemonError Float}
      (hrest : m.supervisor = .starting ⟨wake, .act action next⟩) :
      SupervisorStep d m
        { m with
          world := (m.world.perform action).2.2
          supervisor := .starting
            ⟨(m.world.perform action).2.2.clock + (m.world.perform action).2.1,
              next (m.world.perform action).1⟩ }
  | abort {wake : Nat} {e : DaemonError} (hrest : m.supervisor = .starting ⟨wake, .fail e⟩) :
      SupervisorStep d m { m with supervisor := .ended m.now (.error e) }
  | launch {wake : Nat} {interval : Float}
      (hrest : m.supervisor = .starting ⟨wake, .done interval⟩) :
      SupervisorStep d m (m.launch d interval)
  | stop {deadline : Option Nat} (hwatching : m.supervisor = .watching deadline)
      (journal : Journal) :
      SupervisorStep d m
        { m with world := { m.world with journal }, shutdown := true, supervisor := .stopping }
  | finish (hstopping : m.supervisor = .stopping) (hdeserted : m.deserted = true)
      (journal : Journal) {outcome : Except DaemonError Unit}
      (houtcome : d.selfRunning = true →
        outcome = if m.fault then .error .chainSilent else .ok ()) :
      SupervisorStep d m
        { m with world := { m.world with journal }, supervisor := .ended m.now outcome }

inductive Leaving (m : Machine) : Party → Machine → Prop
  | manager {wake : Nat} {manager : Manager} (hresting : m.manager = .resting wake manager)
      (hshutdown : m.shutdown = true) : Leaving m .manager m.dismissManager
  | reader {a : Activity ChainError Unit} (hreading : m.reader = .reading a true)
      (hshutdown : m.shutdown = true) : Leaving m .reader m.dismissReader
  | dispatcher (hfree : ∀ a, m.dispatcher ≠ .handling a) (hwaiting : m.dispatcher ≠ .stopped)
      (hshutdown : m.shutdown = true) : Leaving m .dispatcher m.dismissDispatcher

section

variable {d : Daemon} {m m' : Machine}

theorem managerStep_of_turn (h : m.managerTurn d .stepwise = some m') : ManagerStep d m m' := by
  unfold managerTurn at h
  cases hmanager : m.manager with
  | stopped =>
      rw [hmanager] at h
      cases h
  | resting wake manager =>
      rw [hmanager] at h
      dsimp only at h
      split at h
      · cases h
      · cases h
        exact .poll hmanager
  | polling a =>
      obtain ⟨wake, rest⟩ := a
      rw [hmanager] at h
      dsimp only at h
      split at h
      · cases h
      · cases rest with
        | act action next =>
            cases h
            exact .act hmanager
        | fail e => cases e
        | done manager =>
            cases h
            exact .rest hmanager

theorem readerStep_of_turn (h : m.readerTurn d .stepwise = some m') : ReaderStep d m m' := by
  unfold readerTurn at h
  cases hreader : m.reader with
  | stopped =>
      rw [hreader] at h
      cases h
  | reading a breakable =>
      obtain ⟨wake, rest⟩ := a
      rw [hreader] at h
      dsimp only at h
      split at h
      · cases h
      · cases rest with
        | act action next =>
            cases h
            exact .act hreader
        | fail e =>
            cases h
            exact .lose hreader
        | done value =>
            cases h
            exact .again hreader

theorem supervisorStep_of_turn (h : m.supervisorTurn d .stepwise = some m') :
    SupervisorStep d m m' := by
  unfold supervisorTurn at h
  cases hsupervisor : m.supervisor with
  | standing =>
      rw [hsupervisor] at h
      cases h
  | ended time outcome =>
      rw [hsupervisor] at h
      cases h
  | starting a =>
      obtain ⟨wake, rest⟩ := a
      rw [hsupervisor] at h
      dsimp only at h
      split at h
      · cases h
      · cases rest with
        | act action next =>
            cases h
            exact .act hsupervisor
        | fail e =>
            cases h
            exact .abort hsupervisor
        | done interval =>
            cases h
            exact .launch hsupervisor
  | watching deadline =>
      rw [hsupervisor] at h
      dsimp only at h
      split at h
      · cases h
        exact .stop hsupervisor _
      · split at h
        · split at h
          · cases h
          · cases h
            exact .stop hsupervisor _
        · cases h
  | stopping =>
      rw [hsupervisor] at h
      dsimp only at h
      split at h
      case isTrue => cases h
      case isFalse hleft =>
        have hdeserted : m.deserted = true := by simpa using hleft
        split at h
        case isTrue hforeign =>
          cases h
          refine .finish hsupervisor hdeserted m.world.journal fun hself => ?_
          simp [hself] at hforeign
        case isFalse =>
          split at h
          case isTrue hfault =>
            cases h
            exact .finish hsupervisor hdeserted m.world.journal fun _ => (if_pos hfault).symm
          case isFalse hfault =>
            cases h
            exact .finish hsupervisor hdeserted _ fun _ => (if_neg hfault).symm

theorem leaving_of_quit {party : Party} (h : m.quit party = some m') : Leaving m party m' := by
  unfold quit at h
  cases party with
  | supervisor => cases h
  | manager =>
      dsimp only at h
      split at h
      case h_2 => cases h
      case h_1 wake manager hresting =>
        split at h
        case isFalse => cases h
        case isTrue hshutdown =>
          cases h
          exact .manager hresting hshutdown
  | reader =>
      dsimp only at h
      split at h
      case h_2 => cases h
      case h_1 a hreading =>
        split at h
        case isFalse => cases h
        case isTrue hshutdown =>
          cases h
          exact .reader hreading hshutdown
  | dispatcher =>
      dsimp only at h
      split at h
      case h_3 => cases h
      all_goals
        split at h
        case isFalse => cases h
        case isTrue hshutdown =>
          cases h
          exact .dispatcher (by simp [*]) (by simp [*]) hshutdown

end

end Machine

/-! ## What one move can do -/

/-- Seen from the work in hand, nothing has happened between these worlds but that time has passed
or the consumer has gone. -/
structure World.Alike (w w' : World) : Prop where
  jobs : w'.ledger.jobs = w.ledger.jobs
  frames : w'.frames = w.frames
  found : w'.found = w.found
  consumer : w'.consumer = .present → w.consumer = .present
  clock : w.clock ≤ w'.clock

theorem World.Alike.of_journal (w : World) (journal : Journal) : w.Alike { w with journal } :=
  ⟨rfl, rfl, rfl, id, Nat.le_refl _⟩

/-- What happens from outside touches neither the parties' work nor the clock, and a consumer that
is gone does not come back. -/
def Machine.Move.Harmless : Move → Prop
  | .meet (.change f) => ∀ w : World, w.Alike (f w) ∧ (f w).clock = w.clock
  | _ => True

namespace Machine

inductive Step (d : Daemon) (m : Machine) : Move → Machine → Prop
  | read {wake : Nat} {action : Action} {next : action.Answer → Routine ChainError Unit}
      {breakable : Bool} (hrest : m.reader = .reading ⟨wake, .act action next⟩ breakable) :
      Step d m (.turn .reader)
        { m with
          world := (m.world.perform action).2.2
          reader := .reading
            ⟨(m.world.perform action).2.2.clock + (m.world.perform action).2.1,
              next (m.world.perform action).1⟩
            ((m.world.perform action).2.1 != 0) }
  | reread {wake : Nat} {breakable : Bool}
      (hrest : m.reader = .reading ⟨wake, .done ()⟩ breakable) :
      Step d m (.turn .reader) { m with reader := .reading ⟨m.now, d.readOnce⟩ true }
  | lose {wake : Nat} {e : ChainError} {breakable : Bool}
      (hrest : m.reader = .reading ⟨wake, .fail e⟩ breakable) :
      Step d m (.turn .reader) (m.raiseFault "Result reader lost the chain" e).dismissReader
  | leave {a : Activity ChainError Unit} (hrest : m.reader = .reading a true) :
      Step d m (.quit .reader) m.dismissReader
  | dispatch {wake : Nat} {action : Action} {next : action.Answer → Routine ChainError Bool}
      (hrest : m.dispatcher = .handling ⟨wake, .act action next⟩) :
      Step d m (.turn .dispatcher)
        { m with
          world := (m.world.perform action).2.2
          dispatcher := .handling
            ⟨(m.world.perform action).2.2.clock + (m.world.perform action).2.1,
              next (m.world.perform action).1⟩ }
  | take {since : Nat} {message : WorkMessage} {inbox : List WorkMessage}
      (hidle : m.dispatcher = .idle since) (hinbox : m.inbox = message :: inbox) :
      Step d m (.turn .dispatcher)
        { m with inbox, dispatcher := .handling ⟨m.now, d.handle message⟩ }
  | manage {wake : Nat} {action : Action} {next : action.Answer → Routine Empty Manager}
      (hrest : m.manager = .polling ⟨wake, .act action next⟩) :
      Step d m (.turn .manager)
        { m with
          world := (m.world.perform action).2.2
          manager := .polling
            ⟨m.now + (m.world.perform action).2.1, next (m.world.perform action).1⟩ }
  | poll {wake : Nat} {manager : Manager} (hresting : m.manager = .resting wake manager) :
      Step d m (.turn .manager)
        { m with manager := .polling ⟨m.now, manager.poll d.controller⟩ }
  /-- Nobody acts, takes a message, or begins anything. -/
  | quiet {move : Move} {m' : Machine} (hdeed : Occurrence.deed? ⟨m, move⟩ = none)
      (htaken : Occurrence.taken? ⟨m, move⟩ = none) (hworld : m.world.Alike m'.world)
      (hreader : m'.reader = m.reader)
      (hdispatcher : m'.dispatcher = m.dispatcher ∨ ∀ a, m'.dispatcher ≠ .handling a)
      (hmanager : m'.manager = m.manager ∨ ∀ a, m'.manager ≠ .polling a)
      (hsupervisor : ∀ a, m'.supervisor ≠ .starting a) :
      Step d m move m'

variable {d : Daemon} {m m' : Machine}

theorem step_of_managerTurn (hstarted : ∀ a, m.supervisor ≠ .starting a)
    (h : m.managerTurn d .stepwise = some m') : Step d m (.turn .manager) m' := by
  cases managerStep_of_turn h with
  | act hrest => exact .manage hrest
  | poll hresting => exact .poll hresting
  | rest hrest =>
      refine .quiet ?_ rfl (World.Alike.of_journal _ _) rfl (.inl rfl) (.inr nofun) hstarted
      simp [Occurrence.deed?, next?, hrest, Routine.head?]

theorem step_of_readerTurn (h : m.readerTurn d .stepwise = some m') :
    Step d m (.turn .reader) m' := by
  cases readerStep_of_turn h with
  | act hrest => exact .read hrest
  | again hrest => exact .reread hrest
  | lose hrest => exact .lose hrest

theorem step_of_dispatcherTurn (hstarted : ∀ a, m.supervisor ≠ .starting a)
    (h : m.dispatcherTurn d .stepwise = some m') : Step d m (.turn .dispatcher) m' := by
  have hquiet (hnext : m.next? .dispatcher = none) (hmessage : m.message? = none)
      (fault : Bool) (journal : Journal) (inbox : List WorkMessage) (dispatcher : DispatcherTask)
      (hleft : ∀ a, dispatcher ≠ .handling a) :
      Step d m (.turn .dispatcher)
        { m with world := { m.world with journal }, fault, inbox, dispatcher } :=
    .quiet hnext hmessage (World.Alike.of_journal _ _) rfl (.inr hleft) (.inl rfl) hstarted
  unfold dispatcherTurn at h
  cases hdispatcher : m.dispatcher with
  | stopped =>
      rw [hdispatcher] at h
      cases h
  | idle since =>
      rw [hdispatcher] at h
      cases hinbox : m.inbox with
      | cons message inbox =>
          rw [hinbox] at h
          cases h
          exact .take hdispatcher hinbox
      | nil =>
          have hmessage : m.message? = none := by simp [message?, hdispatcher, hinbox]
          rw [hinbox] at h
          dsimp only at h
          split at h
          · cases h
          · cases h
            exact hquiet (by simp [next?, hdispatcher]) hmessage m.fault _ [] .stopped nofun
  | resting wake =>
      have hmessage : m.message? = none := by simp [message?, hdispatcher]
      rw [hdispatcher] at h
      dsimp only at h
      split at h
      · cases h
      · cases h
        exact hquiet (by simp [next?, hdispatcher]) hmessage m.fault m.world.journal m.inbox _ nofun
  | handling a =>
      have hmessage : m.message? = none := by simp [message?, hdispatcher]
      obtain ⟨wake, rest⟩ := a
      rw [hdispatcher] at h
      dsimp only at h
      split at h
      · cases h
      · cases rest with
        | act action next =>
            cases h
            exact .dispatch hdispatcher
        | fail e =>
            have hnext : m.next? .dispatcher = none := by simp [next?, hdispatcher, Routine.head?]
            cases h
            exact hquiet hnext hmessage true _ [] .stopped nofun
        | done rests =>
            have hnext : m.next? .dispatcher = none := by simp [next?, hdispatcher, Routine.head?]
            have hends := hquiet hnext hmessage m.fault m.world.journal m.inbox
            cases rests <;> cases h <;> exact hends _ nofun

theorem step_of_supervisorTurn (hstarted : ∀ a, m.supervisor ≠ .starting a)
    (h : m.supervisorTurn d .stepwise = some m') : Step d m (.turn .supervisor) m' := by
  have hquiet : ∀ journal shutdown supervisor, (∀ a, supervisor ≠ .starting a) →
      Step d m (.turn .supervisor)
        { m with world := { m.world with journal }, shutdown, supervisor } := by
    intro journal shutdown supervisor hleft
    refine .quiet ?_ rfl (World.Alike.of_journal _ _) rfl (.inl rfl) (.inl rfl) hleft
    cases hsupervisor : m.supervisor with
    | starting a => exact absurd hsupervisor (hstarted a)
    | _ => simp [Occurrence.deed?, next?, hsupervisor]
  cases supervisorStep_of_turn h with
  | act hrest | abort hrest | launch hrest => exact absurd hrest (hstarted _)
  | stop _ journal => exact hquiet journal true .stopping nofun
  | finish _ _ journal _ => exact hquiet journal m.shutdown _ nofun

theorem step_of_quit {party : Party} (hstarted : ∀ a, m.supervisor ≠ .starting a)
    (h : m.quit party = some m') : Step d m (.quit party) m' := by
  cases leaving_of_quit h with
  | reader hreading _ => exact .leave hreading
  | manager _ _ =>
      exact .quiet rfl rfl (World.Alike.of_journal _ _) rfl (.inl rfl) (.inr nofun) hstarted
  | dispatcher _ _ _ =>
      exact .quiet rfl rfl (World.Alike.of_journal _ _) rfl (.inr nofun) (.inl rfl) hstarted

theorem step_of_meet {event : Event} (hstarted : ∀ a, m.supervisor ≠ .starting a)
    (hharmless : (Move.meet event).Harmless) (h : m.meet d event = some m') :
    Step d m (.meet event) m' := by
  cases event with
  | change f =>
      cases h
      exact .quiet rfl rfl (hharmless m.world).1 rfl (.inl rfl) (.inl rfl) hstarted
  | message message =>
      unfold meet at h
      dsimp only at h
      have hquiet : ∀ inbox, Step d m (.meet (.message message)) { m with inbox } := fun _ =>
        .quiet rfl rfl (World.Alike.of_journal _ _) rfl (.inl rfl) (.inl rfl) hstarted
      split at h
      · cases h
        exact hquiet m.inbox
      · split at h
        · cases h
          exact hquiet _
        · cases h
  | stop =>
      cases h
      exact .quiet rfl rfl (World.Alike.of_journal _ _) rfl (.inl rfl) (.inl rfl) nofun
  | _ =>
      cases h
      exact .quiet rfl rfl (World.Alike.of_journal _ _) rfl (.inl rfl) (.inl rfl) hstarted

/-- Every move of a machine that has been started is one of these steps. -/
theorem step_of_make {move : Move} (hstarted : ∀ a, m.supervisor ≠ .starting a)
    (hharmless : move.Harmless) (h : m.make d move = some m') : Step d m move m' := by
  cases move with
  | turn party =>
      cases party with
      | manager => exact step_of_managerTurn hstarted h
      | reader => exact step_of_readerTurn h
      | dispatcher => exact step_of_dispatcherTurn hstarted h
      | supervisor => exact step_of_supervisorTurn hstarted h
  | quit party => exact step_of_quit hstarted h
  | meet event => exact step_of_meet hstarted hharmless h
  | elapse ms =>
      cases h
      exact .quiet rfl rfl ⟨rfl, rfl, rfl, id, Nat.le_add_right ..⟩ rfl (.inl rfl) (.inl rfl)
        hstarted

end Machine

end ChipChain
