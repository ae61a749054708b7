import ChipChain.Daemon.Clockwork
import ChipChain.Proofs.Chain.BringUp
import ChipChain.Proofs.Daemon.Failures
import ChipChain.Proofs.Daemon.Turns

/-!
# When a daemon gives its chain up

The reader loses the chain when a reading finds the port gone, the dispatcher when a
job's frame cannot be sent. Each raises the alarm then, and nothing that happens in
between lets it leave without doing so; nobody else raises the alarm. So a daemon that
was started and ends tells that its chain is silent exactly if one of the two has
happened. The main statement is `ends_chainSilent_iff`.
-/

namespace ChipChain

open Machine Routine

/-! ## What the past tells -/

namespace Occurrence

/-- The party lost the chain here. -/
def loses (o : Occurrence) (party : Party) : Bool :=
  match o.deedOf? party with
  | some action => party.loses action (o.answer action)
  | none => false

variable {o : Occurrence}

theorem loses_eq_true_iff {party : Party} :
    o.loses party = true ↔
      ∃ action, o.deedOf? party = some action ∧ party.loses action (o.answer action) = true := by
  unfold loses
  cases o.deedOf? party <;> simp

theorem loses_reader_iff :
    o.loses .reader = true ↔ ∃ capacity window,
      o.deedOf? .reader = some (.receive capacity window) ∧
        o.answer (.receive capacity window) = .error .disconnected := by
  rw [loses_eq_true_iff]
  constructor
  · rintro ⟨action, hdeed, hloses⟩
    cases action with
    | receive capacity window =>
        exact ⟨capacity, window, hdeed, Party.reader_loses_receive.1 hloses⟩
    | _ => cases hloses
  · rintro ⟨capacity, window, hdeed, hanswer⟩
    exact ⟨_, hdeed, Party.reader_loses_receive.2 hanswer⟩

theorem loses_dispatcher_iff :
    o.loses .dispatcher = true ↔ ∃ frame e,
      o.deedOf? .dispatcher = some (.transmit frame) ∧ o.answer (.transmit frame) = .error e := by
  rw [loses_eq_true_iff]
  constructor
  · rintro ⟨action, hdeed, hloses⟩
    cases action with
    | transmit frame =>
        obtain ⟨e, hanswer⟩ := Party.dispatcher_loses_transmit.1 hloses
        exact ⟨frame, e, hdeed, hanswer⟩
    | _ => cases hloses
  · rintro ⟨frame, e, hdeed, hanswer⟩
    exact ⟨_, hdeed, Party.dispatcher_loses_transmit.2 ⟨e, hanswer⟩⟩

end Occurrence

def lost (party : Party) (past : List Occurrence) : Bool :=
  past.any (·.loses party)

section

variable {past : List Occurrence} {o : Occurrence} {party : Party}

theorem lost_concat : lost party (past ++ [o]) = (lost party past || o.loses party) := by
  simp [lost]

theorem lost_concat_of_deed {action : Action} (hnot : lost party past = false)
    (hdeed : o.deedOf? party = some action) :
    lost party (past ++ [o]) = party.loses action (o.answer action) := by
  rw [lost_concat, hnot, Bool.false_or, Occurrence.loses, hdeed]

theorem lost_concat_of_none (past : List Occurrence) (hdeed : o.deedOf? party = none) :
    lost party (past ++ [o]) = lost party past := by
  rw [lost_concat, Occurrence.loses, hdeed, Bool.or_false]

end

theorem Line.take_of_error {capacity window : Nat} {replies : List Reply} {e : LinkError}
    (h : (take capacity window replies).1 = .error e) : (take capacity window replies).2.1 = 0 := by
  match replies with
  | [] => cases h
  | .silence :: rest => cases h
  | .bytes data :: rest => rfl
  | .fault e :: rest => rfl

theorem World.duration_of_loses (w : World) (action : Action)
    (h : Party.reader.loses action (w.perform action).1 = true) :
    (w.perform action).2.1 = 0 := by
  cases action with
  | receive capacity window => exact Line.take_of_error (Party.reader_loses_receive.1 h)
  | _ => cases h

/-! ## Who has to do with the alarm -/

/-- A reader that has lost the chain is about to fail and does not leave before, and one that has
stopped has raised the alarm. -/
def ReaderTask.Honest (lost fault : Bool) : ReaderTask → Prop
  | .reading a breakable =>
    a.rest.Stands Party.reader.loses lost ∧ (lost = true → breakable = false)
  | .stopped => lost = true → fault = true

/-- A dispatcher that has lost the chain is about to fail, and one that has stopped has raised the
alarm. -/
def DispatcherTask.Honest (model : Model) (lost fault : Bool) : DispatcherTask → Prop
  | .handling a =>
    a.rest.Stands Party.dispatcher.loses lost ∧
      a.rest.Within fun action => ∀ frame, action = .transmit frame →
        ∃ job id, frame = model.jobFrame job id
  | .stopped => lost = true → fault = true
  | _ => lost = false

namespace Machine

variable {d : Daemon} {m m' : Machine}

/-- Nobody is at work before the start is over, and nobody after the end. -/
def SupervisorSound (m : Machine) : Prop :=
  match m.supervisor with
  | .starting _ =>
    m.reader = .stopped ∧ m.dispatcher = .stopped ∧ m.fault = false ∧ m.startedAt = none
  | .ended _ outcome => m.startedAt ≠ none →
    m.reader = .stopped ∧ m.dispatcher = .stopped ∧
      outcome = if m.fault then .error .chainSilent else .ok ()
  | _ => True

theorem SupervisorSound.of_eq (h : m.SupervisorSound) (hreader : m'.reader = m.reader)
    (hdispatcher : m'.dispatcher = m.dispatcher) (hfault : m'.fault = m.fault)
    (hstartedAt : m'.startedAt = m.startedAt) (hsupervisor : m'.supervisor = m.supervisor) :
    m'.SupervisorSound := by
  rw [SupervisorSound, hsupervisor, hreader, hdispatcher, hfault, hstartedAt]
  exact h

theorem SupervisorSound.of_busy (h : m.SupervisorSound)
    (hbusy : m.reader ≠ .stopped ∨ m.dispatcher ≠ .stopped)
    (hstartedAt : m'.startedAt = m.startedAt) (hsupervisor : m'.supervisor = m.supervisor) :
    m'.SupervisorSound := by
  unfold SupervisorSound at h ⊢
  rw [hsupervisor, hstartedAt]
  cases hsame : m.supervisor with
  | starting a =>
      rw [hsame] at h
      exact absurd h.2.1 (hbusy.resolve_left (not_not_intro h.1))
  | ended time outcome =>
      rw [hsame] at h
      intro hstarted
      have hidle := h hstarted
      exact absurd hidle.2.1 (hbusy.resolve_left (not_not_intro hidle.1))
  | _ => trivial

theorem stopped_of_deserted (h : m.deserted = true) :
    m.reader = .stopped ∧ m.dispatcher = .stopped := by
  unfold deserted at h
  split at h
  · exact ⟨‹_›, ‹_›⟩
  · cases h

/-! ## Who leaves it alone -/

/-- Those who have to do with the alarm are left alone, or told to stop. -/
structure Bystands (m m' : Machine) : Prop where
  reader : m'.reader = m.reader
  dispatcher : m'.dispatcher = m.dispatcher
  fault : m'.fault = m.fault
  startedAt : m'.startedAt = m.startedAt
  supervisor : m'.supervisor = m.supervisor ∨ m'.supervisor = .stopping

theorem bystands_of_managerTurn (h : m.managerTurn d .stepwise = some m') : Bystands m m' := by
  cases managerStep_of_turn h <;> exact ⟨rfl, rfl, rfl, rfl, .inl rfl⟩

theorem bystands_of_meet {event : Event} (h : m.meet d event = some m') : Bystands m m' := by
  cases event with
  | message message =>
      unfold meet at h
      dsimp only at h
      split at h
      · cases h
        exact ⟨rfl, rfl, rfl, rfl, .inl rfl⟩
      · split at h
        · cases h
          exact ⟨rfl, rfl, rfl, rfl, .inl rfl⟩
        · cases h
  | stop =>
      cases h
      exact ⟨rfl, rfl, rfl, rfl, .inr rfl⟩
  | _ =>
      cases h
      exact ⟨rfl, rfl, rfl, rfl, .inl rfl⟩

end Machine

/-! ## What every move keeps -/

/-- After these occurrences, whoever has lost the chain raises the alarm, and nobody else does. -/
structure AlarmSound (d : Daemon) (past : List Occurrence) (m : Machine) : Prop where
  reader : m.reader.Honest (lost .reader past) m.fault
  dispatcher : m.dispatcher.Honest d.settings.model (lost .dispatcher past) m.fault
  cause : m.fault = true → lost .reader past = true ∨ lost .dispatcher past = true
  supervisor : m.SupervisorSound

theorem ReaderTask.Honest.of_fault {task : ReaderTask} {lost fault fault' : Bool}
    (h : task.Honest lost fault) (hfault : fault = true → fault' = true) :
    task.Honest lost fault' := by
  cases task with
  | stopped => exact fun hlost => hfault (h hlost)
  | _ => exact h

theorem ReaderTask.honest_readOnce (d : Daemon) (wake : Nat) (fault : Bool) :
    (ReaderTask.reading ⟨wake, d.readOnce⟩ true).Honest false fault :=
  ⟨d.readOnce_failsOn, nofun⟩

theorem DispatcherTask.Honest.of_fault {model : Model} {task : DispatcherTask}
    {lost fault fault' : Bool} (h : task.Honest model lost fault)
    (hfault : fault = true → fault' = true) : task.Honest model lost fault' := by
  cases task with
  | stopped => exact fun hlost => hfault (h hlost)
  | _ => exact h

namespace AlarmSound

variable {d : Daemon} {past : List Occurrence} {m m' : Machine} {move : Move}

theorem cause_concat (h : AlarmSound d past m) (o : Occurrence) (hfault : m.fault = true) :
    lost .reader (past ++ [o]) = true ∨ lost .dispatcher (past ++ [o]) = true :=
  (h.cause hfault).imp (fun hlost => by simp [lost_concat, hlost])
    fun hlost => by simp [lost_concat, hlost]

theorem of_reader (h : AlarmSound d past m) (hbusy : m.reader ≠ .stopped)
    (hidle : Occurrence.deedOf? ⟨m, move⟩ .dispatcher = none)
    (hreader : m'.reader.Honest (lost .reader (past ++ [⟨m, move⟩])) m'.fault)
    (hfault : m'.fault = m.fault ∨
      m'.fault = true ∧ lost .reader (past ++ [⟨m, move⟩]) = true)
    (hdispatcher : m'.dispatcher = m.dispatcher) (hstartedAt : m'.startedAt = m.startedAt)
    (hsupervisor : m'.supervisor = m.supervisor) :
    AlarmSound d (past ++ [⟨m, move⟩]) m' where
  reader := hreader
  dispatcher := by
    rw [lost_concat_of_none past hidle, hdispatcher]
    refine h.dispatcher.of_fault fun hraised => ?_
    rcases hfault with hsame | ⟨hraised', -⟩
    · rwa [hsame]
    · exact hraised'
  cause := by
    intro hraised
    rcases hfault with hsame | ⟨-, hlost⟩
    · exact h.cause_concat _ (hsame ▸ hraised)
    · exact .inl hlost
  supervisor := h.supervisor.of_busy (.inl hbusy) hstartedAt hsupervisor

theorem of_dispatcher (h : AlarmSound d past m) (hbusy : m.dispatcher ≠ .stopped)
    (hidle : Occurrence.deedOf? ⟨m, move⟩ .reader = none)
    (hdispatcher : m'.dispatcher.Honest d.settings.model
      (lost .dispatcher (past ++ [⟨m, move⟩])) m'.fault)
    (hfault : m'.fault = m.fault ∨
      m'.fault = true ∧ lost .dispatcher (past ++ [⟨m, move⟩]) = true)
    (hreader : m'.reader = m.reader) (hstartedAt : m'.startedAt = m.startedAt)
    (hsupervisor : m'.supervisor = m.supervisor) :
    AlarmSound d (past ++ [⟨m, move⟩]) m' where
  reader := by
    rw [lost_concat_of_none past hidle, hreader]
    refine h.reader.of_fault fun hraised => ?_
    rcases hfault with hsame | ⟨hraised', -⟩
    · rwa [hsame]
    · exact hraised'
  dispatcher := hdispatcher
  cause := by
    intro hraised
    rcases hfault with hsame | ⟨-, hlost⟩
    · exact h.cause_concat _ (hsame ▸ hraised)
    · exact .inr hlost
  supervisor := h.supervisor.of_busy (.inr hbusy) hstartedAt hsupervisor

theorem of_readerStep (h : AlarmSound d past m) (hstep : Machine.ReaderStep d m m') :
    AlarmSound d (past ++ [⟨m, .turn .reader⟩]) m' := by
  have hreader := h.reader
  have hdeed := Occurrence.deedOf?_turn m .reader
  have hother : Occurrence.deedOf? ⟨m, .turn .reader⟩ .dispatcher = none :=
    Occurrence.deedOf?_of_ne m (by decide)
  cases hstep with
  | @act wake action next breakable hrest =>
      rw [hrest] at hreader
      have hlost := lost_concat_of_deed hreader.1.not_lost_of_act
        (hdeed.trans (by rw [Machine.next?, hrest]; rfl))
      refine h.of_reader (by simp [hrest]) hother ⟨?_, ?_⟩ (.inl rfl) rfl rfl rfl
      · rw [hlost]
        exact hreader.1.next _
      · -- The loss is told without a wait, so the reader does not stand where it could leave.
        rw [hlost]
        intro hloses
        have hnow := World.duration_of_loses m.world action hloses
        simp [hnow]
  | again hrest =>
      rw [hrest] at hreader
      have hlost := lost_concat_of_none past
        (hdeed.trans (by rw [Machine.next?, hrest]; rfl))
      refine h.of_reader (by simp [hrest]) hother ?_ (.inl rfl) rfl rfl rfl
      rw [hlost, hreader.1.not_lost_of_done]
      exact ReaderTask.honest_readOnce d m.now m.fault
  | lose hrest =>
      rw [hrest] at hreader
      have hlost := lost_concat_of_none past
        (hdeed.trans (by rw [Machine.next?, hrest]; rfl))
      exact h.of_reader (by simp [hrest]) hother (fun _ => rfl)
        (.inr ⟨rfl, hlost.trans hreader.1.lost_of_fail⟩) rfl rfl rfl

theorem of_dispatcherShift (h : AlarmSound d past m)
    (hshift : Machine.DispatcherShift m (.turn .dispatcher) m') :
    AlarmSound d (past ++ [⟨m, .turn .dispatcher⟩]) m' := by
  have hdispatcher := h.dispatcher
  have hlost := lost_concat_of_none past hshift.quiet.2
  have hother : Occurrence.deedOf? ⟨m, .turn .dispatcher⟩ .reader = none :=
    Occurrence.deedOf?_of_ne m (by decide)
  cases hshift with
  | @finish wake rests hrest =>
      rw [hrest] at hdispatcher
      have hkept := hlost.trans hdispatcher.1.not_lost_of_done
      refine h.of_dispatcher (by simp [hrest]) hother ?_ (.inl rfl) rfl rfl rfl
      rw [hkept]
      cases rests <;> rfl
  | lose hrest =>
      rw [hrest] at hdispatcher
      exact h.of_dispatcher (by simp [hrest]) hother (fun _ => rfl)
        (.inr ⟨rfl, hlost.trans hdispatcher.1.lost_of_fail⟩) rfl rfl rfl
  | rise hresting _ =>
      rw [hresting] at hdispatcher
      exact h.of_dispatcher (by simp [hresting]) hother (hlost.trans hdispatcher) (.inl rfl)
        rfl rfl rfl
  | close hidle _ _ =>
      rw [hidle] at hdispatcher
      have hkept := hlost.trans hdispatcher
      refine h.of_dispatcher (by simp [hidle]) hother ?_ (.inl rfl) rfl rfl rfl
      rw [hkept]
      exact nofun
  | aside hmove _ => exact absurd rfl hmove

theorem of_dispatcherStep (h : AlarmSound d past m)
    (hstep : Machine.DispatcherStep d m (.turn .dispatcher) m') :
    AlarmSound d (past ++ [⟨m, .turn .dispatcher⟩]) m' := by
  have hdispatcher := h.dispatcher
  have hother : Occurrence.deedOf? ⟨m, .turn .dispatcher⟩ .reader = none :=
    Occurrence.deedOf?_of_ne m (by decide)
  cases hstep with
  | @act wake action next hrest _ =>
      rw [hrest] at hdispatcher
      have hlost := lost_concat_of_deed hdispatcher.1.not_lost_of_act (Occurrence.acting hrest).2
      refine h.of_dispatcher (by simp [hrest]) hother ⟨?_, hdispatcher.2.2 _⟩ (.inl rfl) rfl rfl rfl
      rw [hlost]
      exact hdispatcher.1.next _
  | @take since message inbox hidle _ =>
      rw [hidle] at hdispatcher
      have hlost := lost_concat_of_none past
        ((Occurrence.deedOf?_turn m .dispatcher).trans (by rw [Machine.next?, hidle]))
      refine h.of_dispatcher (by simp [hidle]) hother ⟨?_, d.handle_sends_jobs message⟩ (.inl rfl)
        rfl rfl rfl
      rw [hlost, hdispatcher]
      exact d.handle_failsOn message
  | shift hshift => exact h.of_dispatcherShift hshift

theorem of_aside (h : AlarmSound d past m)
    (hidle : Occurrence.deedOf? ⟨m, move⟩ .reader = none ∧
      Occurrence.deedOf? ⟨m, move⟩ .dispatcher = none)
    (hreader : m'.reader = m.reader) (hdispatcher : m'.dispatcher = m.dispatcher)
    (hfault : m'.fault = m.fault) (hsupervisor : m'.SupervisorSound) :
    AlarmSound d (past ++ [⟨m, move⟩]) m' where
  reader := by
    rw [lost_concat_of_none past hidle.1, hreader, hfault]
    exact h.reader
  dispatcher := by
    rw [lost_concat_of_none past hidle.2, hdispatcher, hfault]
    exact h.dispatcher
  cause := fun hraised => h.cause_concat _ (hfault ▸ hraised)
  supervisor := hsupervisor

theorem of_bystands (h : AlarmSound d past m) (hsame : Bystands m m')
    (hidle : Occurrence.deedOf? ⟨m, move⟩ .reader = none ∧
      Occurrence.deedOf? ⟨m, move⟩ .dispatcher = none) :
    AlarmSound d (past ++ [⟨m, move⟩]) m' := by
  refine h.of_aside hidle hsame.reader hsame.dispatcher hsame.fault ?_
  rcases hsame.supervisor with hsupervisor | hstopping
  · exact h.supervisor.of_eq hsame.reader hsame.dispatcher hsame.fault hsame.startedAt hsupervisor
  · rw [SupervisorSound, hstopping]
    trivial

theorem of_quit {party : Party} (h : AlarmSound d past m) (hquit : m.quit party = some m') :
    AlarmSound d (past ++ [⟨m, .quit party⟩]) m' := by
  have hreader := h.reader
  have hdispatcher := h.dispatcher
  cases leaving_of_quit hquit with
  | manager _ _ => exact h.of_bystands ⟨rfl, rfl, rfl, rfl, .inl rfl⟩ ⟨rfl, rfl⟩
  | reader hreading _ =>
      -- It waits, so it has lost nothing.
      rw [hreading] at hreader
      refine h.of_reader (by simp [hreading]) rfl (fun hlost => ?_) (.inl rfl) rfl rfl rfl
      rw [lost_concat_of_none past rfl] at hlost
      exact nomatch hreader.2 hlost
  | dispatcher hfree hwaiting _ =>
      have hkept : lost .dispatcher past = false := by
        cases hplace : m.dispatcher with
        | handling a => exact absurd hplace (hfree a)
        | stopped => exact absurd hplace hwaiting
        | _ =>
            rw [hplace] at hdispatcher
            exact hdispatcher
      refine h.of_dispatcher hwaiting rfl (fun hlost => ?_) (.inl rfl) rfl rfl rfl
      rw [lost_concat_of_none past rfl, hkept] at hlost
      cases hlost

theorem launch (h : AlarmSound d past m) (hreader : lost .reader past = false)
    (hdispatcher : lost .dispatcher past = false) (interval : Float) :
    AlarmSound d past (m.launch d interval) := by
  have hreading : ReaderTask.Honest (lost .reader past) m.fault
      (.reading ⟨m.now, d.readOnce⟩ true) := by
    rw [hreader]
    exact ReaderTask.honest_readOnce d m.now m.fault
  unfold Machine.launch
  cases d.hasWork with
  | false => cases d.selfRunning <;> exact ⟨hreading, h.dispatcher, h.cause, trivial⟩
  | true => cases d.selfRunning <;> exact ⟨hreading, hdispatcher, h.cause, trivial⟩

theorem of_supervisorStep (h : AlarmSound d past m) (hself : d.selfRunning = true)
    (hstep : SupervisorStep d m m') : AlarmSound d (past ++ [⟨m, .turn .supervisor⟩]) m' := by
  have hsupervisor := h.supervisor
  have hidle : Occurrence.deedOf? ⟨m, .turn .supervisor⟩ .reader = none ∧
      Occurrence.deedOf? ⟨m, .turn .supervisor⟩ .dispatcher = none :=
    ⟨Occurrence.deedOf?_of_ne m (by decide), Occurrence.deedOf?_of_ne m (by decide)⟩
  unfold SupervisorSound at hsupervisor
  cases hstep with
  | act hrest =>
      rw [hrest] at hsupervisor
      exact h.of_aside hidle rfl rfl rfl hsupervisor
  | abort hrest =>
      rw [hrest] at hsupervisor
      exact h.of_aside hidle rfl rfl rfl fun hstarted => absurd hsupervisor.2.2.2 hstarted
  | @launch wake interval hrest =>
      rw [hrest] at hsupervisor
      obtain ⟨hreader, hdispatcher, hfault, -⟩ := hsupervisor
      have hthen := h.of_aside hidle rfl rfl rfl h.supervisor
      have hheard := hthen.reader
      have hsent := hthen.dispatcher
      rw [hreader, hfault] at hheard
      rw [hdispatcher, hfault] at hsent
      exact hthen.launch (Bool.eq_false_iff.2 fun hlost => nomatch hheard hlost)
        (Bool.eq_false_iff.2 fun hlost => nomatch hsent hlost) interval
  | stop _ journal => exact h.of_aside hidle rfl rfl rfl trivial
  | finish _ hdeserted journal houtcome =>
      obtain ⟨hreader, hdispatcher⟩ := stopped_of_deserted hdeserted
      exact h.of_aside hidle rfl rfl rfl fun _ => ⟨hreader, hdispatcher, houtcome hself⟩

theorem of_make (h : AlarmSound d past m) (hself : d.selfRunning = true)
    (hmake : m.make d move = some m') : AlarmSound d (past ++ [⟨m, move⟩]) m' := by
  cases move with
  | turn party =>
      cases party with
      | manager =>
          exact h.of_bystands (bystands_of_managerTurn hmake)
            ⟨Occurrence.deedOf?_of_ne m (by decide), Occurrence.deedOf?_of_ne m (by decide)⟩
      | reader => exact h.of_readerStep (readerStep_of_turn hmake)
      | dispatcher => exact h.of_dispatcherStep (dispatcherStep_of_turn hmake)
      | supervisor => exact h.of_supervisorStep hself (supervisorStep_of_turn hmake)
  | quit party => exact h.of_quit hmake
  | meet event => exact h.of_bystands (bystands_of_meet hmake) ⟨rfl, rfl⟩
  | elapse ms =>
      cases hmake
      exact h.of_bystands ⟨rfl, rfl, rfl, rfl, .inl rfl⟩ ⟨rfl, rfl⟩

theorem run (h : AlarmSound d past m) (hself : d.selfRunning = true) {moves : List Move}
    {later : List Occurrence} (hrun : m.run d moves = some (later, m')) :
    AlarmSound d (past ++ later) m' := by
  have hany : ∀ o ∈ later, (fun _ : Occurrence => True) o := fun _ _ => trivial
  exact run_keeps (fun hsound _ hmake => hsound.of_make hself hmake) h hany hrun

theorem begin (d : Daemon) (w : World) : AlarmSound d [] (d.scenario w []).machine :=
  ⟨nofun, nofun, nofun, rfl, rfl, rfl, rfl⟩

theorem frame_of_transmit (h : AlarmSound d past m) {frame : Bytes}
    (hdeed : Occurrence.deedOf? ⟨m, move⟩ .dispatcher = some (.transmit frame)) :
    ∃ job id, frame = d.settings.model.jobFrame job id := by
  have hdispatcher := h.dispatcher
  have hnext := Occurrence.next?_of_deedOf? hdeed
  unfold next? at hnext
  dsimp only at hnext
  split at hnext
  · case _ a hhandling =>
      rw [hhandling] at hdispatcher
      exact hdispatcher.2.head? hnext frame rfl
  · cases hnext

end AlarmSound

/-! ## How a daemon ends -/

/-- A reading of the reader found the port gone. -/
def PortGone (past : List Occurrence) : Prop :=
  ∃ o ∈ past, ∃ capacity window, o.deedOf? .reader = some (.receive capacity window) ∧
    o.answer (.receive capacity window) = .error .disconnected

/-- The dispatcher could not send the frame of a job. -/
def SendingFailed (model : Model) (past : List Occurrence) : Prop :=
  ∃ o ∈ past, ∃ job id e, o.deedOf? .dispatcher = some (.transmit (model.jobFrame job id)) ∧
    o.answer (.transmit (model.jobFrame job id)) = .error e

theorem lost_reader_iff {past : List Occurrence} : lost .reader past = true ↔ PortGone past := by
  simp [lost, PortGone, Occurrence.loses_reader_iff]

theorem lost_dispatcher_iff {d : Daemon} {m last : Machine} (h : AlarmSound d [] m)
    (hself : d.selfRunning = true) {moves : List Move} {past : List Occurrence}
    (hrun : m.run d moves = some (past, last)) :
    lost .dispatcher past = true ↔ SendingFailed d.settings.model past := by
  rw [lost, List.any_eq_true]
  refine exists_congr fun o => and_congr_right fun hmem => ?_
  rw [Occurrence.loses_dispatcher_iff]
  constructor
  · rintro ⟨frame, e, hdeed, hanswer⟩
    -- The dispatcher's routine is known where the frame is sent, not at the end of the run.
    obtain ⟨before, after, rfl⟩ := List.append_of_mem hmem
    obtain ⟨first, rest, -, hfirst⟩ := run_of_split hrun
    obtain ⟨job, id, rfl⟩ := (h.run hself hfirst).frame_of_transmit hdeed
    exact ⟨job, id, e, hdeed, hanswer⟩
  · rintro ⟨job, id, e, hdeed, hanswer⟩
    exact ⟨_, e, hdeed, hanswer⟩

/-- A daemon that runs by itself and was started ends telling that its chain is silent exactly if
the reader found the port gone or the dispatcher could not send a job, and else it ends well. -/
theorem Daemon.ends_chainSilent_iff (d : Daemon) (hself : d.selfRunning = true) (w : World)
    {moves : List Move} {past : List Occurrence} {m : Machine} {time : Nat}
    {outcome : Except DaemonError Unit}
    (hrun : (d.scenario w []).machine.run d moves = some (past, m))
    (hstarted : m.startedAt ≠ none) (hended : m.supervisor = .ended time outcome) :
    (outcome = .error .chainSilent ↔ PortGone past ∨ SendingFailed d.settings.model past) ∧
      (outcome ≠ .error .chainSilent → outcome = .ok ()) := by
  have hbegun := AlarmSound.begin d w
  have hsound : AlarmSound d past m := hbegun.run hself hrun
  have hsupervisor := hsound.supervisor
  rw [SupervisorSound, hended] at hsupervisor
  obtain ⟨hreader, hdispatcher, houtcome⟩ := hsupervisor hstarted
  have hheard := hsound.reader
  have hsent := hsound.dispatcher
  rw [hreader] at hheard
  rw [hdispatcher] at hsent
  have hfault : m.fault = true ↔ PortGone past ∨ SendingFailed d.settings.model past := by
    rw [← lost_reader_iff, ← lost_dispatcher_iff hbegun hself hrun]
    exact ⟨hsound.cause, fun hlost => hlost.elim hheard hsent⟩
  rw [← hfault, houtcome]
  cases m.fault <;> simp

namespace Machine

/-- A chain of one chip, and a port that is gone as soon as the chip has answered. -/
def parting : World :=
  { World.fresh .bm1370 with
    line := { replies := [.bytes Model.identity, .silence, .fault .disconnected] } }

def attentive : Daemon where
  settings := ⟨.bm1370, 1, Ramp.bootFrequency, 1150, 256, none, false⟩
  hasWork := false
  selfRunning := true
  listen := none

/-- The daemon is told to shut down before the reader finds the port gone, and stops before the
reader has raised the alarm. -/
def closing : List Move :=
  (List.replicate 66 [.turn .supervisor, .elapse 1000]).flatten ++
    [.meet .shutdown, .turn .reader, .turn .supervisor, .turn .reader] ++
    List.replicate 6 (.turn .manager) ++ [.quit .manager, .turn .supervisor]

def outcome? (m : Machine) : Option (Except DaemonError Unit) :=
  match m.supervisor with
  | .ended _ outcome => some outcome
  | _ => none

theorem ends_chainSilent_of_closing :
    ∃ past m time, (attentive.scenario parting []).machine.run attentive closing = some (past, m) ∧
      m.startedAt ≠ none ∧ m.supervisor = .ended time (.error .chainSilent) ∧
      (PortGone past ∨ SendingFailed .bm1370 past) := by
  have hends : ((attentive.scenario parting []).machine.run attentive closing).map
      (fun ran => (ran.2.startedAt, ran.2.outcome?)) =
        some (some 65000, some (.error .chainSilent)) := by
    decide +kernel
  obtain ⟨⟨past, m⟩, hrun, hend⟩ := Option.map_eq_some_iff.1 hends
  obtain ⟨hstartedAt, houtcome⟩ := Prod.mk.inj hend
  have hstarted : m.startedAt ≠ none := hstartedAt ▸ Option.some_ne_none 65000
  unfold outcome? at houtcome
  split at houtcome
  · case _ time outcome hended =>
      cases houtcome
      have hiff := attentive.ends_chainSilent_iff rfl parting hrun hstarted hended
      exact ⟨past, m, time, hrun, hstarted, hended, hiff.1.1 rfl⟩
  · cases houtcome

end Machine

end ChipChain
