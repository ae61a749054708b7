import ChipChain.Daemon.Clockwork
import ChipChain.Proofs.Daemon.Conduct

/-!
# Schedules are runs

A scenario is played by the clock, and each party does at once all that it can do without waiting.
Taken apart into single actions, this is one of the runs of the machine
(`Scenario.run_eq_play`), so what holds of all runs holds of what is played.
-/

namespace ChipChain

open Machine Routine

def Machine.Move.event? : Move → Option Event
  | .meet event => some event
  | _ => none

/-- Some moves lead from one machine to another, and meet just these events on the way. -/
def Machine.RunsTo (d : Daemon) (m : Machine) (events : List Event) (m' : Machine) : Prop :=
  ∃ moves past, m.run d moves = some (past, m') ∧ moves.filterMap Move.event? = events

namespace Machine.RunsTo

variable {d : Daemon} {m m' m'' : Machine} {events events' : List Event}

theorem refl (d : Daemon) (m : Machine) : RunsTo d m [] m :=
  ⟨[], [], rfl, rfl⟩

theorem cons (move : Move) (h : m.make d move = some m') (hrest : RunsTo d m' events m'') :
    RunsTo d m (move.event?.toList ++ events) m'' := by
  obtain ⟨moves, past, hrun, rfl⟩ := hrest
  refine ⟨move :: moves, ⟨m, move⟩ :: past, by simp [run, h, hrun], ?_⟩
  cases move <;> rfl

theorem of_make (move : Move) (h : m.make d move = some m') :
    RunsTo d m move.event?.toList m' := by
  have hone := cons move h (refl d m')
  rwa [List.append_nil] at hone

theorem trans (h : RunsTo d m events m') (h' : RunsTo d m' events' m'') :
    RunsTo d m (events ++ events') m'' := by
  obtain ⟨moves, past, hrun, rfl⟩ := h
  induction moves generalizing m past with
  | nil =>
      cases hrun
      exact h'
  | cons move rest ih =>
      obtain ⟨reached, tail, hmake, hrest, -⟩ := run_cons_eq_some hrun
      have hcons := cons move hmake (ih tail hrest)
      cases move <;> exact hcons

end Machine.RunsTo

/-! ## All that can be done at once -/

section

variable {ε α : Type}

theorem Routine.clock_single (r : Routine ε α) (w : World) : (r.single w).2.clock = w.clock := by
  cases r with
  | act action next => exact World.clock_perform w action
  | _ => rfl

theorem Routine.clock_advance (r : Routine ε α) (w : World) : (r.advance w).2.clock = w.clock := by
  induction r generalizing w with
  | act action next ih =>
      have hclock := World.clock_perform w action
      simp only [advance]
      split
      · exact (ih _ _).trans hclock
      · exact hclock
  | _ => rfl

theorem Pace.clock_apply {pace : Pace} (hpace : pace ∈ [Pace.stepwise, Pace.atOnce])
    (r : Routine ε α) (w : World) : (pace r w).2.clock = w.clock := by
  obtain rfl | rfl : pace = Pace.stepwise ∨ pace = Pace.atOnce := by simpa using hpace
  · exact r.clock_single w
  · exact r.clock_advance w

/-- What a party's turn makes of what its routine came to in a world. -/
def Routine.Progress.settle (wait : World → Activity ε α → Bool → Machine)
    (close : World → Except ε α → Machine) : Progress ε α × World → Machine
  | (.ended outcome, w) => close w outcome
  | (.waiting ms rest, w) => wait w ⟨w.clock + ms, rest⟩ (ms != 0)

/-- At either pace, a turn of a party that follows a routine makes of the machine what the routine
came to. -/
def Machine.Works (d : Daemon) (party : Party) (wait : World → Activity ε α → Bool → Machine)
    (close : World → Except ε α → Machine) : Prop :=
  ∀ pace ∈ [Pace.stepwise, Pace.atOnce], ∀ w a breakable,
    (wait w a breakable).turn d pace party =
      if w.clock < a.wake then none else some (Progress.settle wait close (pace a.rest w))

namespace Machine.Works

variable {d : Daemon} {party : Party} {wait : World → Activity ε α → Bool → Machine}
  {close : World → Except ε α → Machine}

theorem single_runsTo (hworks : Works d party wait close) (r : Routine ε α) (w : World)
    {wake : Nat} (hwake : wake ≤ w.clock) (breakable : Bool) :
    RunsTo d (wait w ⟨wake, r⟩ breakable) [] (Progress.settle wait close (r.single w)) := by
  have hturn := hworks .stepwise (by simp) w ⟨wake, r⟩ breakable
  exact .of_make (.turn party) (hturn.trans (if_neg hwake.not_gt))

/-- Turns of one action each lead where the party gets by doing at once all that it can. -/
theorem advance_runsTo (hworks : Works d party wait close) (r : Routine ε α) (w : World)
    {wake : Nat} (hwake : wake ≤ w.clock) (breakable : Bool) :
    RunsTo d (wait w ⟨wake, r⟩ breakable) [] (Progress.settle wait close (r.advance w)) := by
  induction r generalizing w wake breakable with
  | done value => exact hworks.single_runsTo (.done value) w hwake breakable
  | fail error => exact hworks.single_runsTo (.fail error) w hwake breakable
  | act action next ih =>
      have hone := hworks.single_runsTo (.act action next) w hwake breakable
      simp only [advance]
      split
      · case isTrue hinstant =>
        -- Nothing is waited for, so the next turn follows.
        have hready : (w.perform action).2.2.clock + (w.perform action).2.1 ≤
            (w.perform action).2.2.clock := (congrArg _ hinstant).le
        exact hone.trans (ih _ _ hready _)
      · exact hone

theorem runsTo (hworks : Works d party wait close) (w : World) (a : Activity ε α)
    (breakable : Bool) {m m' : Machine} (hm : wait w a breakable = m)
    (h : m.turn d .atOnce party = some m') : RunsTo d m [] m' := by
  subst hm
  rw [hworks .atOnce (by simp)] at h
  split at h
  · cases h
  · cases h
    exact hworks.advance_runsTo a.rest w (Nat.le_of_not_lt ‹_›) breakable

end Machine.Works

end

/-! ## Turns -/

namespace Machine

variable {d : Daemon} {m m' : Machine}

/-- The manager's look has ended, and it rests. -/
def endLook (m : Machine) (world : World) : Except Empty Manager → Machine
  | .ok manager => { m with world, manager := .resting (world.clock + Manager.pollInterval) manager }

/-- The reading has ended: another begins, unless the chain is lost. -/
def endReading (d : Daemon) (m : Machine) (world : World) : Except ChainError Unit → Machine
  | .ok () => { m with world, reader := .reading ⟨world.clock, d.readOnce⟩ true }
  | .error e => ({ m with world }.raiseFault "Result reader lost the chain" e).dismissReader

/-- The message has been followed, and a rest comes after it or not, unless the chain is lost. -/
def endHandling (m : Machine) (world : World) : Except ChainError Bool → Machine
  | .ok true => { m with world, dispatcher := .resting (world.clock + m.jobRest) }
  | .ok false => { m with world, dispatcher := .idle world.clock }
  | .error e => ({ m with world }.raiseFault "Failed to dispatch job" e).dismissDispatcher

/-- The start has ended: the parties take their places, unless it has failed. -/
def endStart (d : Daemon) (m : Machine) (world : World) : Except DaemonError Float → Machine
  | .ok interval => { m with world }.launch d interval
  | .error e => { m with world, supervisor := .ended world.clock (.error e) }

theorem manager_works (d : Daemon) (m : Machine) :
    Works d .manager (fun world a _ => { m with world, manager := .polling a }) m.endLook := by
  intro pace hpace w a _
  have hclock := Pace.clock_apply hpace a.rest w
  simp only [turn, managerTurn, now]
  rcases hcame : pace a.rest w with ⟨⟨_ | _⟩ | _, world⟩
  · contradiction
  · rw [hcame] at hclock
    simp only [Progress.settle, endLook, ← hclock]
  · rw [hcame] at hclock
    simp only [Progress.settle, ← hclock]

theorem reader_works (d : Daemon) (m : Machine) :
    Works d .reader (fun world a breakable => { m with world, reader := .reading a breakable })
      (m.endReading d) := by
  intro pace _ w a breakable
  simp only [turn, readerTurn, now]
  rcases pace a.rest w with ⟨⟨_ | _⟩ | _, world⟩ <;> rfl

theorem dispatcher_works (d : Daemon) (m : Machine) :
    Works d .dispatcher (fun world a _ => { m with world, dispatcher := .handling a })
      m.endHandling := by
  intro pace _ w a _
  simp only [turn, dispatcherTurn, now]
  rcases pace a.rest w with ⟨⟨_ | ⟨_ | _⟩⟩ | _, world⟩ <;> rfl

theorem supervisor_works (d : Daemon) (m : Machine) :
    Works d .supervisor (fun world a _ => { m with world, supervisor := .starting a })
      (m.endStart d) := by
  intro pace _ w a _
  simp only [turn, supervisorTurn, now]
  rcases pace a.rest w with ⟨⟨_ | _⟩ | _, world⟩ <;> rfl

/-- A turn that follows no routine is the same at either pace. -/
theorem runsTo_of_turn_eq {party : Party}
    (hsame : m.turn d .stepwise party = m.turn d .atOnce party)
    (h : m.turn d .atOnce party = some m') : RunsTo d m [] m' :=
  .of_make (.turn party) (hsame.trans h)

theorem managerTurn_runsTo (h : m.turn d .atOnce .manager = some m') : RunsTo d m [] m' := by
  cases hmanager : m.manager with
  | polling a =>
      exact (manager_works d m).runsTo m.world a false (by rw [← hmanager]) h
  | _ => exact runsTo_of_turn_eq (by simp only [turn, managerTurn, hmanager]) h

theorem readerTurn_runsTo (h : m.turn d .atOnce .reader = some m') : RunsTo d m [] m' := by
  cases hreader : m.reader with
  | reading a breakable =>
      exact (reader_works d m).runsTo m.world a breakable (by rw [← hreader]) h
  | _ => exact runsTo_of_turn_eq (by simp only [turn, readerTurn, hreader]) h

theorem dispatcherTurn_runsTo (h : m.turn d .atOnce .dispatcher = some m') : RunsTo d m [] m' := by
  cases hdispatcher : m.dispatcher with
  | handling a =>
      exact (dispatcher_works d m).runsTo m.world a false (by rw [← hdispatcher]) h
  | _ => exact runsTo_of_turn_eq (by simp only [turn, dispatcherTurn, hdispatcher]) h

theorem supervisorTurn_runsTo (h : m.turn d .atOnce .supervisor = some m') : RunsTo d m [] m' := by
  cases hsupervisor : m.supervisor with
  | starting a =>
      exact (supervisor_works d m).runsTo m.world a false (by rw [← hsupervisor]) h
  | _ => exact runsTo_of_turn_eq (by simp only [turn, supervisorTurn, hsupervisor]) h

theorem turn_runsTo {party : Party} (h : m.turn d .atOnce party = some m') : RunsTo d m [] m' := by
  cases party with
  | manager => exact managerTurn_runsTo h
  | reader => exact readerTurn_runsTo h
  | dispatcher => exact dispatcherTurn_runsTo h
  | supervisor => exact supervisorTurn_runsTo h

end Machine

/-! ## Scenarios -/

/-- Some moves lead from one scenario's machine to another's, and meet just the events by which
the one has more to come than the other. -/
def Scenario.LeadsTo (d : Daemon) (s s' : Scenario) : Prop :=
  ∃ met, RunsTo d s.machine met s'.machine ∧ s.events.map Prod.snd = met ++ s'.events.map Prod.snd

namespace Scenario

variable {d : Daemon} {s s' s'' : Scenario}

namespace LeadsTo

theorem refl (d : Daemon) (s : Scenario) : LeadsTo d s s :=
  ⟨[], .refl d s.machine, rfl⟩

theorem trans (h : LeadsTo d s s') (h' : LeadsTo d s' s'') : LeadsTo d s s'' := by
  obtain ⟨met, hruns, hevents⟩ := h
  obtain ⟨later, hruns', hevents'⟩ := h'
  exact ⟨met ++ later, hruns.trans hruns', by rw [hevents, hevents', List.append_assoc]⟩

theorem of_runsTo {m : Machine} (h : RunsTo d s.machine [] m) :
    LeadsTo d s { s with machine := m } :=
  ⟨[], h, rfl⟩

end LeadsTo

theorem meetEvent_leadsTo (h : s.meetEvent d = some s') : LeadsTo d s s' := by
  obtain ⟨m, events⟩ := s
  cases events with
  | nil => cases h
  | cons due events =>
      obtain ⟨time, event⟩ := due
      simp only [meetEvent] at h
      split at h
      · cases h
      · obtain ⟨m', hmeet, rfl⟩ := Option.map_eq_some_iff.1 h
        exact ⟨[event], .of_make (.meet event) hmeet, rfl⟩

theorem next?_leadsTo (h : s.next? d = some s') : LeadsTo d s s' := by
  have hmoved {found : Option Machine} (hruns : ∀ m, found = some m → RunsTo d s.machine [] m)
      (h : (found.map fun machine => { s with machine }) = some s') : LeadsTo d s s' := by
    obtain ⟨m, hfound, rfl⟩ := Option.map_eq_some_iff.1 h
    exact .of_runsTo (hruns m hfound)
  unfold next? at h
  dsimp only at h
  split at h
  · cases h
  · simp only [Option.orElse_eq_orElse, Option.orElse_eq_or, Option.or_eq_some_iff] at h
    obtain h | ⟨-, h | ⟨-, h | ⟨-, h⟩⟩⟩ := h
    · exact meetEvent_leadsTo h
    · exact hmoved (fun m hturn => turn_runsTo hturn) h
    · refine hmoved (fun m hfound => ?_) h
      obtain ⟨party, -, hquit⟩ := List.exists_of_findSome?_eq_some hfound
      exact .of_make (.quit party) hquit
    · refine hmoved (fun m hfound => ?_) h
      obtain ⟨party, -, hturn⟩ := List.exists_of_findSome?_eq_some hfound
      exact turn_runsTo hturn

theorem settle_leadsTo (d : Daemon) (limit : Nat) (s : Scenario) :
    LeadsTo d s (s.settle d limit) := by
  induction limit generalizing s with
  | zero => exact .refl d s
  | succ limit ih =>
      rw [settle]
      split
      · case h_1 hnext => exact (next?_leadsTo hnext).trans (ih _)
      · exact .refl d s

theorem instant_leadsTo (d : Daemon) (s : Scenario) : LeadsTo d s (s.instant d) :=
  (settle_leadsTo d _ s).trans (settle_leadsTo d _ _)

theorem elapse_leadsTo {time : Nat} (h : s.machine.now < time) :
    LeadsTo d s { s with
      machine := { s.machine with world := { s.machine.world with clock := time } } } := by
  have hclock : s.machine.world.clock + (time - s.machine.world.clock) = time :=
    Nat.add_sub_cancel' h.le
  refine .of_runsTo (.of_make (.elapse (time - s.machine.world.clock)) ?_)
  rw [make, World.after, hclock]

theorem now_lt_of_nextTime? {time : Nat} (h : s.nextTime? d = some time) :
    s.machine.now < time := by
  have hmem := List.min?_mem h
  simpa using (List.mem_filter.1 hmem).2

/-- What the clock makes of a scenario is one of the machine's runs, over just the events that are
no longer to come. -/
theorem run_leadsTo (d : Daemon) (horizon now : Nat) (s : Scenario) :
    LeadsTo d s (s.run d horizon now) := by
  fun_induction run d horizon now s with
  | case1 now s settled hended => exact instant_leadsTo d s
  | case2 now s settled hended hnone => exact instant_leadsTo d s
  | case3 now s settled hended time hnext hbound world ih =>
      exact (instant_leadsTo d s).trans ((elapse_leadsTo (now_lt_of_nextTime? hnext)).trans ih)
  | case4 now s settled hended time hnext hbound => exact instant_leadsTo d s

/-- The machine that a scenario is played to comes out of one of the runs of single actions, which
meets the scenario's events in their order, as far as it gets. -/
theorem run_eq_play (d : Daemon) (s : Scenario) :
    ∃ moves past, s.machine.run d moves = some (past, s.play d) ∧
      moves.filterMap Move.event? <+: s.events.map Prod.snd := by
  obtain ⟨_, ⟨moves, past, hrun, rfl⟩, hevents⟩ := run_leadsTo d horizon s.machine.now s
  exact ⟨moves, past, hrun, ⟨_, hevents.symm⟩⟩

end Scenario

end ChipChain
