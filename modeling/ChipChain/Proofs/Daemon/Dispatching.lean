import ChipChain.Proofs.Daemon.Resting

/-!
# Work goes out in order

The works among the messages go out as job frames, each under the identifier that its
number gives, never closer together than the interval. Between two messages
exactly those works are live that the messages leave under their identifiers.
The main statement is `launch_dispatches`.
-/

namespace ChipChain

open Machine Routine

/-! ## Job frames -/

def Command.carriesJob (frame : Bytes) : Bool :=
  match read? frame with
  | some (c, _) => c.isJob
  | none => false

theorem Command.carriesJob_frame {c : Command} (h : c.Fits) : carriesJob c.frame = c.isJob := by
  have hread := read?_frame_append h []
  rw [List.append_nil] at hread
  rw [carriesJob, hread]

theorem Command.Fits.of_not_isJob {c : Command} (h : c.isJob = false) : c.Fits := by
  cases c with
  | job _ => cases h
  | _ => trivial

theorem Model.carriesJob_jobFrame (model : Model) (job : Job) (id : UInt8) :
    Command.carriesJob (model.jobFrame job id) = true :=
  Command.carriesJob_frame (model.fits_payload job id)

/-- The frames of the works, numbered from one. -/
def Model.workFrames (model : Model) (messages : List WorkMessage) : List Bytes :=
  (works messages).zipIdx.map fun (job, number) =>
    model.jobFrame job (IdAllocator.nth model.family.jobIdStep (number + 1))

theorem Model.workFrames_concat (model : Model) (messages : List WorkMessage) (job : Job) :
    model.workFrames (messages ++ [.work job]) = model.workFrames messages ++
      [model.jobFrame job
        (IdAllocator.nth model.family.jobIdStep ((works messages).length + 1))] := by
  simp [workFrames, works_concat_work, List.zipIdx_append]

theorem Model.workFrames_concat_cleanJobs (model : Model) (messages : List WorkMessage) :
    model.workFrames (messages ++ [.cleanJobs]) = model.workFrames messages := by
  rw [workFrames, works_concat_cleanJobs, workFrames]

/-! ## What is sent, and when -/

/-- What comes from outside leaves the ledger and what has been sent as they are. -/
def Machine.Move.Detached : Move → Prop
  | .meet (.change f) => ∀ w : World, (f w).ledger = w.ledger ∧ (f w).line.sent = w.line.sent
  | _ => True

def Occurrence.sendings (o : Occurrence) : List (Nat × Bytes) :=
  o.transmitted.map fun frame => (o.machine.now, frame)

def sendings (past : List Occurrence) : List (Nat × Bytes) :=
  past.flatMap Occurrence.sendings

def jobSendings (past : List Occurrence) : List (Nat × Bytes) :=
  (sendings past).filter fun sending => Command.carriesJob sending.2

def Occurrence.jobSendings (o : Occurrence) : List (Nat × Bytes) :=
  o.sendings.filter fun sending => Command.carriesJob sending.2

section

variable (past : List Occurrence) (o : Occurrence)

theorem sendings_concat : sendings (past ++ [o]) = sendings past ++ o.sendings := by
  simp [sendings]

theorem jobSendings_concat : jobSendings (past ++ [o]) = jobSendings past ++ o.jobSendings := by
  rw [jobSendings, sendings_concat, List.filter_append]
  rfl

end

namespace Occurrence

variable {o : Occurrence}

theorem jobSendings_of_transmit {frame : Bytes} (hdeed : o.deed? = some (.transmit frame))
    (hjob : Command.carriesJob frame = true) :
    o.jobSendings =
      if Except.isOk (o.answer (.transmit frame)) then [(o.machine.now, frame)] else [] := by
  rw [jobSendings, sendings, transmitted, hdeed]
  dsimp only
  split <;> simp [hjob]

theorem jobSendings_of_other {action : Action} (hdeed : o.deed? = some action)
    (hother : ∀ frame, action = .transmit frame → Command.carriesJob frame = false) :
    o.jobSendings = [] := by
  cases action with
  | transmit frame =>
      rw [jobSendings, sendings, transmitted, hdeed]
      dsimp only
      split <;> simp [hother frame rfl]
  | _ => simp [jobSendings, sendings, transmitted, hdeed]

theorem jobSendings_of_none (hdeed : o.deed? = none) : o.jobSendings = [] := by
  simp [jobSendings, sendings, transmitted, hdeed]

end Occurrence

theorem Machine.WorldStep.sent {m : Machine} {move : Move} {w : World} (h : WorldStep m move w)
    (hdetached : move.Detached) :
    w.line.sent.toList = m.world.line.sent.toList ++ Occurrence.sendings ⟨m, move⟩ := by
  have hquiet (hdeed : Occurrence.deed? ⟨m, move⟩ = none) :
      Occurrence.sendings ⟨m, move⟩ = [] := by
    simp [Occurrence.sendings, Occurrence.transmitted, hdeed]
  cases h with
  | noted hdeed => rw [hquiet hdeed, List.append_nil]
  | elapsed hmove =>
      subst hmove
      rw [hquiet rfl, List.append_nil]
      rfl
  | changed hmove =>
      subst hmove
      rw [hquiet rfl, (hdetached m.world).2, List.append_nil]
  | @deed action hdeed =>
      by_cases htransmit : ∃ frame, action = .transmit frame
      · obtain ⟨frame, rfl⟩ := htransmit
        have hsent := m.world.line.sent_transmit m.world.clock frame
        rw [Occurrence.sendings, Occurrence.transmitted, hdeed]
        refine hsent.trans (congrArg _ ?_)
        dsimp only [Occurrence.answer, World.perform]
        split <;> simp [*, now]
      · have hother : ∀ frame, action ≠ .transmit frame := fun frame heq => htransmit ⟨frame, heq⟩
        have hnone := Occurrence.transmitted_eq_nil hdeed hother
        rw [World.sent_perform hother, Occurrence.sendings, hnone, List.map_nil, List.append_nil]

def Action.frames : Action → List Bytes
  | transmit frame => [frame]
  | _ => []

theorem Occurrence.jobFrames_of_due {o : Occurrence} {model : Model} {e : Errand}
    {action : Action} (hdeed : o.deed? = some action) (hmay : e.May model action)
    (hgranted : o.granted = true) : o.jobSendings.map Prod.snd = action.frames := by
  by_cases htransmit : ∃ frame, action = .transmit frame
  · obtain ⟨frame, rfl⟩ := htransmit
    obtain ⟨job, id, -, rfl⟩ := hmay
    have hok : Except.isOk (o.answer (.transmit (model.jobFrame job id))) = true :=
      granted_of_deed hgranted hdeed
    rw [jobSendings_of_transmit hdeed (model.carriesJob_jobFrame job id), if_pos hok]
    rfl
  · have hother : ∀ frame, action ≠ .transmit frame := fun frame heq => htransmit ⟨frame, heq⟩
    rw [jobSendings_of_other hdeed fun frame heq => absurd heq (hother frame)]
    cases action with
    | transmit frame => exact absurd rfl (hother frame)
    | _ => rfl

theorem Action.Aside.carriesJob {frame : Bytes} (h : (Action.transmit frame).Aside) :
    Command.carriesJob frame = false := by
  obtain ⟨c, hother, rfl⟩ := h
  rw [Command.carriesJob_frame (.of_not_isJob hother), hother]

theorem PartiesSound.jobSendings_eq_nil {d : Daemon} {past : List Occurrence} {m : Machine}
    {move : Move} (h : PartiesSound d past m)
    (hnone : Occurrence.deedOf? ⟨m, move⟩ .dispatcher = none) :
    Occurrence.jobSendings ⟨m, move⟩ = [] := by
  cases hdeed : Occurrence.deed? ⟨m, move⟩ with
  | none => exact Occurrence.jobSendings_of_none hdeed
  | some action =>
      refine Occurrence.jobSendings_of_other hdeed ?_
      rintro frame rfl
      cases h.deed hdeed with
      | reader _ _ hmay => exact hmay.elim
      | dispatcher hsome =>
          rw [hnone] at hsome
          cases hsome
      | manager _ _ haside => exact haside.carriesJob

/-- Whoever else acts leaves identifiers and jobs alone, and so does everything detached. -/
theorem PartiesSound.ledger_kept {d : Daemon} {past : List Occurrence} {m : Machine}
    {move : Move} {w : World} (h : PartiesSound d past m) (hworld : WorldStep m move w)
    (hdetached : move.Detached) (hnone : Occurrence.deedOf? ⟨m, move⟩ .dispatcher = none) :
    w.ledger.ids = m.world.ledger.ids ∧ w.ledger.jobs = m.world.ledger.jobs := by
  cases hworld with
  | noted => exact ⟨rfl, rfl⟩
  | elapsed => exact ⟨rfl, rfl⟩
  | changed hmove =>
      subst hmove
      rw [(hdetached m.world).1]
      exact ⟨rfl, rfl⟩
  | @deed action hdeed =>
      cases h.deed hdeed with
      | dispatcher hsome =>
          rw [hnone] at hsome
          cases hsome
      | manager _ _ haside =>
          rw [World.perform_ledger haside.keepsLedger]
          exact ⟨rfl, rfl⟩
      | reader _ _ hmay =>
          cases action with
          | note | receive | flush | lookUp | screen => exact ⟨rfl, rfl⟩
          | deliver found =>
              obtain ⟨_, hperform⟩ := m.world.perform_deliver found
              rw [hperform]
              exact ⟨rfl, rfl⟩
          | _ => exact hmay.elim

/-! ## The ledger and the wire, by the messages -/

/-- By these messages identifiers are drawn, jobs made live, and frames sent. -/
structure Standing (model : Model) (drawn live sent : List WorkMessage) (ids : IdAllocator)
    (jobs : Registry) (frames : List Bytes) : Prop where
  ids : ids =
    ⟨IdAllocator.nth model.family.jobIdStep (works drawn).length, model.family.jobIdStep⟩
  jobs : jobs.Holds model.family.jobIdStep live
  frames : frames = model.workFrames sent

/-- How far the last message has come in the ledger and on the wire. -/
def Errand.Stands (model : Model) (taken : List WorkMessage) (ids : IdAllocator) (jobs : Registry)
    (frames : List Bytes) : Errand → Prop
  | .idle => Standing model taken taken taken ids jobs frames
  | .holding job => ∃ earlier, taken = earlier ++ [.work job] ∧
      Standing model earlier earlier earlier ids jobs frames
  | .drawn job id => ∃ earlier, taken = earlier ++ [.work job] ∧
      id = IdAllocator.nth model.family.jobIdStep ((works earlier).length + 1) ∧
      Standing model taken earlier earlier ids jobs frames
  | .installed job id => ∃ earlier, taken = earlier ++ [.work job] ∧
      id = IdAllocator.nth model.family.jobIdStep ((works earlier).length + 1) ∧
      Standing model taken taken earlier ids jobs frames
  | .clearing => ∃ earlier, taken = earlier ++ [.cleanJobs] ∧
      Standing model earlier earlier earlier ids jobs frames

namespace Errand.Stands

variable {model : Model} {taken : List WorkMessage} {ids : IdAllocator} {jobs : Registry}
  {frames : List Bytes} {e : Errand}

theorem frames_prefix (h : e.Stands model taken ids jobs frames) :
    frames <+: model.workFrames taken := by
  cases e with
  | idle => exact h.frames ▸ List.prefix_refl _
  | holding job =>
      obtain ⟨earlier, rfl, hstands⟩ := h
      rw [hstands.frames, model.workFrames_concat]
      exact List.prefix_append _ _
  | drawn job id =>
      obtain ⟨earlier, rfl, -, hstands⟩ := h
      rw [hstands.frames, model.workFrames_concat]
      exact List.prefix_append _ _
  | installed job id =>
      obtain ⟨earlier, rfl, -, hstands⟩ := h
      rw [hstands.frames, model.workFrames_concat]
      exact List.prefix_append _ _
  | clearing =>
      obtain ⟨earlier, rfl, hstands⟩ := h
      have hsame := hstands.frames.trans (model.workFrames_concat_cleanJobs earlier).symm
      exact hsame ▸ List.prefix_refl _

theorem take (h : Errand.idle.Stands model taken ids jobs frames) (message : WorkMessage) :
    (Errand.ofMessage message).Stands model (taken ++ [message]) ids jobs frames := by
  cases message with
  | work job => exact ⟨taken, rfl, h⟩
  | cleanJobs => exact ⟨taken, rfl, h⟩

/-- An action that is due brings the last message one step further. -/
theorem act {w : World} {action : Action}
    (h : e.Stands model taken w.ledger.ids w.ledger.jobs frames) (hmay : e.May model action) :
    (e.next action (w.perform action).1).Stands model taken (w.perform action).2.2.ledger.ids
      (w.perform action).2.2.ledger.jobs
      (frames ++ action.frames) := by
  cases action with
  | note entry =>
      simp only [Action.frames, List.append_nil]
      exact h
  | countLive =>
      simp only [Action.frames, List.append_nil]
      exact h
  | drawId =>
      obtain ⟨job, rfl⟩ := hmay
      obtain ⟨earlier, rfl, hstands⟩ := h
      have hnext := IdAllocator.next_nth model.family.jobIdStep (works earlier).length
      rw [← hstands.ids] at hnext
      have hcount : (works (earlier ++ [.work job])).length = (works earlier).length + 1 := by
        simp [works_concat_work]
      simp only [Action.frames, List.append_nil]
      refine ⟨earlier, rfl, congrArg Prod.fst hnext, ?_, hstands.jobs, hstands.frames⟩
      rw [hcount]
      exact congrArg Prod.snd hnext
  | install id job =>
      have hdrawn : e = .drawn job id := hmay
      subst hdrawn
      obtain ⟨earlier, rfl, rfl, hstands⟩ := h
      simp only [Action.frames, List.append_nil]
      exact ⟨earlier, rfl, rfl, hstands.ids, hstands.jobs.work job, hstands.frames⟩
  | transmit frame =>
      obtain ⟨job, id, rfl, rfl⟩ := hmay
      obtain ⟨earlier, rfl, rfl, hstands⟩ := h
      refine ⟨hstands.ids, hstands.jobs, ?_⟩
      rw [Action.frames, hstands.frames, model.workFrames_concat]
  | clearJobs =>
      have hclearing : e = .clearing := hmay
      subst hclearing
      obtain ⟨earlier, rfl, hstands⟩ := h
      refine ⟨?_, Registry.Holds.clean _ earlier, ?_⟩
      · rw [works_concat_cleanJobs]
        exact hstands.ids
      · simp only [Action.frames, List.append_nil, model.workFrames_concat_cleanJobs]
        exact hstands.frames
  | _ => exact hmay.elim

end Errand.Stands

/-! ## The time between jobs -/

theorem Daemon.le_restMs {interval : Float} {count : Nat}
    (h : nanoseconds? interval = some count) : count ≤ 1000000 * restMs interval := by
  rw [restMs, h]
  dsimp only
  omega

/-- At least the interval lies between two sendings. -/
def Spaced (interval : Float) (first second : Nat × Bytes) : Prop :=
  first.1 ≤ second.1 ∧
    ∀ count, Daemon.nanoseconds? interval = some count → count ≤ 1000000 * (second.1 - first.1)

theorem Spaced.of_restMs {interval : Float} {first second : Nat × Bytes}
    (h : first.1 + Daemon.restMs interval ≤ second.1) : Spaced interval first second := by
  refine ⟨by omega, fun count hcount => ?_⟩
  have hrest := Daemon.le_restMs hcount
  omega

theorem Errand.May.next_idle {model : Model} {action : Action}
    (h : Errand.idle.May model action) (answer : action.Answer) :
    Errand.idle.next action answer = .idle := by
  cases action with
  | note | countLive | transmit | clearJobs => rfl
  | drawId => cases h.choose_spec
  | install => cases h
  | _ => exact h.elim

/-! ## What holds at every moment -/

/-- Besides, the dispatcher has sent what the messages say, and in time. -/
structure Dispatched (d : Daemon) (interval : Float) (start : World) (past : List Occurrence)
    (m : Machine) : Prop extends Followed d start past m where
  rest : m.jobRest = Daemon.restMs interval
  sent : m.world.line.sent.toList = start.line.sent.toList ++ sendings past
  spaced : (jobSendings past).IsChain (Spaced interval)
  rested : ∀ last ∈ (jobSendings past).getLast?,
    Rested (· = .idle) (last.1 + m.jobRest) m.jobRest m.now (messages past) (errand past)
      m.dispatcher
  stands : (∀ o ∈ past, o.granted = true) →
    (errand past).Stands d.settings.model (messages past) m.world.ledger.ids
      m.world.ledger.jobs ((jobSendings past).map Prod.snd)
  stays : (∀ o ∈ past, o.granted = true) →
    DispatcherSure m.dispatcher ∧ (d.hasWork = true → m.dispatcher = .stopped →
      m.shutdown = true ∨ m.sourceOpen = false)

namespace Dispatched

variable {d : Daemon} {interval : Float} {start : World} {past : List Occurrence} {m m' : Machine}
  {move : Move}

theorem jobSendings_eq (h : Dispatched d interval start past m) :
    Occurrence.jobSendings ⟨m, move⟩ = [] ∨
      ∃ job id, errand past = .installed job id ∧
        Occurrence.deedOf? ⟨m, move⟩ .dispatcher =
          some (.transmit (d.settings.model.jobFrame job id)) ∧
        Occurrence.jobSendings ⟨m, move⟩ = [(m.now, d.settings.model.jobFrame job id)] := by
  cases hdeed : Occurrence.deedOf? ⟨m, move⟩ .dispatcher with
  | none => exact .inl (h.told.parties.jobSendings_eq_nil hdeed)
  | some action =>
      have hmay := h.told.parties.dispatcher_may hdeed
      have hperformed := Occurrence.deed?_of_deedOf? hdeed
      by_cases htransmit : ∃ frame, action = .transmit frame
      · obtain ⟨frame, rfl⟩ := htransmit
        obtain ⟨job, id, hinstalled, rfl⟩ := hmay
        have hsent := Occurrence.jobSendings_of_transmit hperformed
          (d.settings.model.carriesJob_jobFrame job id)
        split at hsent
        · exact .inr ⟨job, id, hinstalled, rfl, hsent⟩
        · exact .inl hsent
      · refine .inl (Occurrence.jobSendings_of_other hperformed ?_)
        exact fun frame heq => absurd ⟨frame, heq⟩ htransmit

theorem spaced_step (h : Dispatched d interval start past m) :
    (jobSendings (past ++ [⟨m, move⟩])).IsChain (Spaced interval) := by
  rw [jobSendings_concat]
  rcases h.jobSendings_eq with hnone | ⟨job, id, hinstalled, -, hsent⟩
  · rw [hnone, List.append_nil]
    exact h.spaced
  · obtain ⟨a, hhandling⟩ := h.keeps.handling (by simp [hinstalled])
    rw [hsent]
    refine List.isChain_append.2 ⟨h.spaced, List.isChain_singleton _, ?_⟩
    intro last hlast sending hsending
    have hrested := h.rested last hlast
    rw [hhandling] at hrested
    have hover := hrested.ready_of_not (by simp [hinstalled])
    cases hsending
    exact .of_restMs (h.rest ▸ hover)

theorem rested_step (h : Dispatched d interval start past m) (hstep : DispatcherStep d m move m')
    (hnow : m.now ≤ m'.now) :
    ∀ last ∈ (jobSendings (past ++ [⟨m, move⟩])).getLast?,
      Rested (· = .idle) (last.1 + m'.jobRest) m'.jobRest m'.now (messages (past ++ [⟨m, move⟩]))
        (errand (past ++ [⟨m, move⟩])) m'.dispatcher := by
  rw [jobSendings_concat, messages_concat, errand_concat, hstep.jobRest]
  rcases h.jobSendings_eq with hnone | ⟨job, id, hinstalled, hdeed, hsent⟩
  · rw [hnone, List.append_nil]
    refine fun last hlast => hstep.rested ?_ hnow h.keeps (h.rested last hlast)
    rintro e action answer rfl hmay
    exact hmay.next_idle answer
  · rw [hsent, List.getLast?_concat]
    rintro last ⟨⟩
    cases hstep with
    | @act wake action next hrest hwake =>
        have hkeeps := h.keeps
        rw [hrest, hinstalled] at hkeeps
        obtain ⟨-, message, hmessage, hserves, -⟩ := hkeeps
        have htaken := (Occurrence.acting hrest).1
        rw [Occurrence.advance_of_deed htaken hdeed, htaken, Option.toList_none, List.append_nil]
        exact .inr ⟨Nat.add_le_add_right hnow _, rfl, job, hserves ▸ hmessage⟩
    | take hidle =>
        rw [Occurrence.deedOf?_turn, next?, hidle] at hdeed
        cases hdeed
    | shift hshift =>
        rw [hshift.quiet.2] at hdeed
        cases hdeed

theorem stands_step (h : Dispatched d interval start past m)
    (hworld : WorldStep m move m'.world) (hdetached : move.Detached)
    (hgranted : ∀ o ∈ past ++ [⟨m, move⟩], o.granted = true) :
    (errand (past ++ [⟨m, move⟩])).Stands d.settings.model (messages (past ++ [⟨m, move⟩]))
      m'.world.ledger.ids m'.world.ledger.jobs
      ((jobSendings (past ++ [⟨m, move⟩])).map Prod.snd) := by
  have hstands := h.stands fun o hmem => hgranted o (by simp [hmem])
  rw [jobSendings_concat, messages_concat, errand_concat, List.map_append]
  cases hdeed : Occurrence.deedOf? ⟨m, move⟩ .dispatcher with
  | none =>
      obtain ⟨hids, hjobs⟩ := h.told.parties.ledger_kept hworld hdetached hdeed
      rw [h.told.parties.jobSendings_eq_nil hdeed, List.map_nil, List.append_nil, hids, hjobs]
      cases htaken : Occurrence.taken? ⟨m, move⟩ with
      | none =>
          rw [Occurrence.advance_of_none htaken hdeed, Option.toList_none, List.append_nil]
          exact hstands
      | some message =>
          obtain ⟨⟨since, hidle⟩, -⟩ := Occurrence.idle_of_taken htaken
          have hidle : m.dispatcher = .idle since := hidle
          have hnothing := h.keeps.idle (by simp [hidle])
          rw [hnothing] at hstands
          rw [Occurrence.advance_of_taken htaken]
          exact hstands.take message
  | some action =>
      have hmay := h.told.parties.dispatcher_may hdeed
      have hperformed := Occurrence.deed?_of_deedOf? hdeed
      have htaken : Occurrence.taken? ⟨m, move⟩ = none := by
        by_contra hsome
        obtain ⟨message, hmessage⟩ := Option.ne_none_iff_exists'.1 hsome
        rw [(Occurrence.idle_of_taken hmessage).2] at hdeed
        cases hdeed
      have hjobs := Occurrence.jobFrames_of_due hperformed hmay (hgranted _ (by simp))
      have hact := hstands.act hmay
      rw [Occurrence.advance_of_deed htaken hdeed, hjobs, htaken, Option.toList_none,
        List.append_nil, hworld.of_deed hperformed]
      exact hact

theorem stays_step (h : Dispatched d interval start past m) (hstep : DispatcherStep d m move m')
    (hgranted : ∀ o ∈ past ++ [⟨m, move⟩], o.granted = true) :
    DispatcherSure m'.dispatcher ∧ (d.hasWork = true → m'.dispatcher = .stopped →
      m'.shutdown = true ∨ m'.sourceOpen = false) := by
  obtain ⟨hsure, hstays⟩ := h.stays fun o hmem => hgranted o (by simp [hmem])
  refine ⟨hstep.sure (hgranted _ (by simp)) hsure, fun hwork hstopped => ?_⟩
  cases hstep with
  | act => cases hstopped
  | take => cases hstopped
  | shift hshift =>
      cases hshift with
      | @finish wake rests => cases rests <;> cases hstopped
      | lose hrest =>
          rw [hrest] at hsure
          exact hsure.elim
      | rise => cases hstopped
      | close _ _ hsource => exact .inr hsource
      | leave _ hshutdown => exact .inl hshutdown
      | aside _ hspares =>
          rw [hspares.dispatcher] at hstopped
          exact (hstays hwork hstopped).imp hspares.shutdown hspares.source

theorem step (h : Dispatched d interval start past m) (hharmless : move.Harmless)
    (hdetached : move.Detached) (hmake : m.make d move = some m') :
    Dispatched d interval start (past ++ [⟨m, move⟩]) m' := by
  have hstep := step_of_make h.told.parties.supervisor hharmless hmake
  obtain ⟨hdispatcher, hworld⟩ := steps_of_make h.told.parties.supervisor hmake
  refine ⟨h.toFollowed.step hharmless hmake, ?_, ?_, h.spaced_step,
    h.rested_step hdispatcher hstep.now_le, h.stands_step hworld hdetached,
    h.stays_step hdispatcher⟩
  · exact hdispatcher.jobRest.trans h.rest
  · rw [hworld.sent hdetached, h.sent, sendings_concat, List.append_assoc]

theorem run (h : Dispatched d interval start past m) {moves : List Move} {later : List Occurrence}
    {last : Machine} (hharmless : ∀ move ∈ moves, move.Harmless)
    (hdetached : ∀ move ∈ moves, move.Detached) (hrun : m.run d moves = some (later, last)) :
    Dispatched d interval start (past ++ later) last := by
  have hallowed := forall_move_of_run
    (fun move hmem => And.intro (hharmless move hmem) (hdetached move hmem)) hrun
  refine run_keeps ?_ h hallowed hrun
  intro _ _ _ _ hdispatched ⟨hmove, houtside⟩ hmake
  exact hdispatched.step hmove houtside hmake

end Dispatched

/-! ## The whole run -/

theorem Machine.Unlaunched.dispatched {m : Machine} (h : m.Unlaunched) (d : Daemon)
    (interval : Float)
    (hids : m.world.ledger.ids = { step := d.settings.model.family.jobIdStep }) :
    Dispatched d interval m.world [] (m.launch d interval) := by
  have hfollowed := h.followed d interval
  obtain ⟨journal, dispatcher, supervisor, hfree, hwork, -, hlaunch⟩ :=
    m.launch_eq d interval h.dispatcher
  rw [hlaunch] at hfollowed ⊢
  refine ⟨hfollowed, rfl, (List.append_nil _).symm, List.isChain_nil, nofun, fun _ => ?_,
    fun _ => ⟨?_, fun hhas hstopped => ?_⟩⟩
  · refine ⟨?_, ?_, rfl⟩
    · rw [hids]
      simp [messages, works, IdAllocator.nth]
    · rw [h.jobs]
      exact .nothing _
  · cases dispatcher with
    | handling a => exact absurd rfl (hfree a)
    | _ => trivial
  · cases (hwork hhas).symm.trans hstopped

/-- What these occurrences, begun in this world and come to this machine, make of the messages that
the dispatcher has taken. -/
structure Daemon.Dispatches (d : Daemon) (interval : Float) (start : World)
    (past : List Occurrence) (m : Machine) : Prop where
  /-- On the wire is what was sent. -/
  sent : m.world.line.sent.toList = start.line.sent.toList ++ sendings past
  /-- Two jobs in a row go out at least the interval apart. -/
  spaced : (jobSendings past).IsChain (Spaced interval)
  /-- Jobs go out in the order of the messages, each under its own identifier. -/
  ordered : (jobSendings past).map Prod.snd <+: d.settings.model.workFrames (messages past)
  /-- Between two messages, the job of every work so far has gone out. -/
  complete : m.Free →
    (jobSendings past).map Prod.snd = d.settings.model.workFrames (messages past)
  /-- Between two messages, the live jobs are those that the messages leave. -/
  live : m.Free → m.world.ledger.jobs.Holds d.settings.model.family.jobIdStep (messages past)
  /-- On the way with a message the dispatcher cannot leave, and its turn is never put off. -/
  carried : ¬ m.Free → m.quit .dispatcher = none ∧ (m.make d (.turn .dispatcher)).isSome
  /-- After so many turns of the dispatcher at most, there is a moment between two messages. -/
  settles : ∀ moves later last, (∀ move ∈ moves, Move.Harmless move) →
    m.run d moves = some (later, last) → Daemon.handlingLimit < moves.countP Move.isDispatching →
    ∃ first rest settled reached, moves = first ++ rest ∧
      m.run d first = some (settled, reached) ∧ reached.Free
  /-- The dispatcher stays until the daemon shuts down or there are no more messages to come. -/
  stays : d.hasWork = true → m.dispatcher = .stopped → m.shutdown = true ∨ m.sourceOpen = false

/-- However the moves of the parties fall, as long as no sending fails and nobody outside touches
the ledger or the wire. -/
theorem Machine.launch_dispatches (d : Daemon) (interval : Float) {m₀ m : Machine}
    (hunlaunched : m₀.Unlaunched)
    (hids : m₀.world.ledger.ids = { step := d.settings.model.family.jobIdStep })
    {moves : List Move} {past : List Occurrence} (hharmless : ∀ move ∈ moves, move.Harmless)
    (hdetached : ∀ move ∈ moves, move.Detached)
    (hrun : (m₀.launch d interval).run d moves = some (past, m))
    (hgranted : ∀ o ∈ past, o.granted = true) : d.Dispatches interval m₀.world past m := by
  have hdispatched : Dispatched d interval m₀.world past m :=
    (hunlaunched.dispatched d interval hids).run hharmless hdetached hrun
  have hstands := hdispatched.stands hgranted
  have hbetween (hfree : m.Free) : Standing d.settings.model (messages past) (messages past)
      (messages past) m.world.ledger.ids m.world.ledger.jobs
      ((jobSendings past).map Prod.snd) := by
    rw [hdispatched.keeps.idle hfree] at hstands
    exact hstands
  refine ⟨hdispatched.sent, hdispatched.spaced, hstands.frames_prefix,
    fun hfree => (hbetween hfree).frames, fun hfree => (hbetween hfree).jobs,
    carried_of_keeps hdispatched.keeps, ?_, (hdispatched.stays hgranted).2⟩
  intro moves later last hharmless hlater hturns
  exact settles_free hdispatched.told.parties hharmless hlater hdispatched.brief hturns

namespace Machine

def listening : Machine :=
  { world := World.fresh .bm1370
    supervisor := .standing }

/-- Two works, a cleaning and a work, handed over at once and followed one after the other. -/
def overturning : List Move :=
  [.meet (.message (.work { ntime := 1 })), .meet (.message (.work { ntime := 2 })),
      .meet (.message .cleanJobs), .meet (.message (.work { ntime := 3 }))] ++
    List.replicate 8 (.turn .dispatcher) ++ [.elapse 500] ++
    List.replicate 9 (.turn .dispatcher) ++ [.elapse 500] ++
    List.replicate 14 (.turn .dispatcher)

theorem launch_dispatches_of_overturning :
    ∃ past m, (listening.launch watchful 500).run watchful overturning = some (past, m) ∧
      watchful.Dispatches 500 listening.world past m ∧
      (sendings past).map Prod.fst = [0, 500, 1000] ∧ m.world.ledger.jobs.liveCount = 1 ∧
      m.world.ledger.jobs.get? 72 = some { ntime := 3 } := by
  have hunlaunched : listening.Unlaunched := ⟨rfl, nofun⟩
  have hharmless : ∀ move ∈ overturning, move.Harmless := by
    simp [overturning, Move.Harmless]
  have hdetached : ∀ move ∈ overturning, move.Detached := by
    simp [overturning, Move.Detached]
  have hends : ((listening.launch watchful 500).run watchful overturning).map
      (fun ran => (ran.1.all Occurrence.granted, (sendings ran.1).map Prod.fst,
        ran.2.world.ledger.jobs.liveCount, ran.2.world.ledger.jobs.get? 72)) =
          some (true, [0, 500, 1000], 1, some { ntime := 3 }) := by
    decide +kernel
  obtain ⟨⟨past, m⟩, hrun, hend⟩ := Option.map_eq_some_iff.1 hends
  obtain ⟨hgranted, htimes, hlive, hslot⟩ : past.all Occurrence.granted = true ∧
      (sendings past).map Prod.fst = [0, 500, 1000] ∧ m.world.ledger.jobs.liveCount = 1 ∧
      m.world.ledger.jobs.get? 72 = some { ntime := 3 } := by
    simpa only [Prod.mk.injEq] using hend
  exact ⟨past, m, hrun, launch_dispatches watchful 500 hunlaunched rfl hharmless hdetached hrun
    (List.all_eq_true.1 hgranted), htimes, hlive, hslot⟩

end Machine

end ChipChain
