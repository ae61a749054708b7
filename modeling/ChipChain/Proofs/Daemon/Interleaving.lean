import ChipChain.Proofs.Chain.RoundTrip
import ChipChain.Proofs.Daemon.Conduct

/-!
# Work and results, interleaved

However the moves of the parties fall, a job is live before its frame goes out,
and a result keeps the job that was live under its identifier when the reader
looked it up, whatever becomes of the identifier meanwhile. A response that
passes is delivered once, and nothing stops the reader on the way to it
(`launch_faithful`). The dispatcher alone makes jobs live and forgets them, so
what is live tells what it did last (`InstalledLast`).
-/

namespace ChipChain

open Machine Routine

/-! ## Where a live job comes from -/

/-- The dispatcher took this job as work. -/
def Handed (past : List Occurrence) (job : Job) : Prop :=
  ∃ o ∈ past, o.taken? = some (.work job)

theorem Handed.concat {past : List Occurrence} {job : Job} (h : Handed past job)
    (o : Occurrence) : Handed (past ++ [o]) job := by
  obtain ⟨taking, hmem, htaken⟩ := h
  exact ⟨taking, List.mem_append_left _ hmem, htaken⟩

/-- The dispatcher made the job live under the identifier, and since then nobody has forgotten the
live jobs or made another one live in its place. -/
structure LastInstall (past : List Occurrence) (id : UInt8) (job : Job)
    (before : List Occurrence) (o : Occurrence) (after : List Occurrence) : Prop where
  split : past = before ++ o :: after
  deed : o.deedOf? .dispatcher = some (.install id job)
  handed : Handed before job
  kept : ∀ later ∈ after,
    later.deed? ≠ some .clearJobs ∧ ∀ other, later.deed? ≠ some (.install id other)

def InstalledLast (past : List Occurrence) (id : UInt8) (job : Job) : Prop :=
  ∃ before o after, LastInstall past id job before o after

namespace InstalledLast

variable {past : List Occurrence} {o : Occurrence} {id : UInt8} {job : Job}

theorem concat (h : InstalledLast past id job) (hclear : o.deed? ≠ some .clearJobs)
    (hinstall : ∀ other, o.deed? ≠ some (.install id other)) :
    InstalledLast (past ++ [o]) id job := by
  obtain ⟨before, first, after, hlast⟩ := h
  refine ⟨before, first, after ++ [o], ?_, hlast.deed, hlast.handed, ?_⟩
  · rw [hlast.split, List.append_assoc, List.cons_append]
  · intro later hlater
    rcases List.mem_append.1 hlater with hlater | hlater
    · exact hlast.kept later hlater
    · rw [List.mem_singleton.1 hlater]
      exact ⟨hclear, hinstall⟩

theorem concat_of_keepsJobs (h : InstalledLast past id job)
    (hkeeps : ∀ action, o.deed? = some action → action.KeepsJobs) :
    InstalledLast (past ++ [o]) id job :=
  h.concat (fun hclear => hkeeps _ hclear) fun _ hinstall => hkeeps _ hinstall

theorem concat_install (hdeed : o.deedOf? .dispatcher = some (.install id job))
    (hhanded : Handed past job) : InstalledLast (past ++ [o]) id job := by
  refine ⟨past, o, [], rfl, hdeed, hhanded, ?_⟩
  simp

end InstalledLast

/-- The job that the dispatcher is busy with was handed to it, and is live once it is installed. -/
def Errand.Grounded (past : List Occurrence) (jobs : Registry) : Errand → Prop
  | .idle => True
  | .clearing => True
  | .holding job => Handed past job
  | .drawn job id => Handed past job ∧ id.toNat < jobIdSpace
  | .installed job id => jobs.get? id = some job

theorem Errand.Grounded.concat {past : List Occurrence} {jobs : Registry} {e : Errand}
    (h : e.Grounded past jobs) (o : Occurrence) : e.Grounded (past ++ [o]) jobs := by
  cases e with
  | holding job => exact Handed.concat h o
  | drawn job id => exact ⟨h.1.concat o, h.2⟩
  | _ => exact h

/-! ## Where a result comes from -/

/-- The reader read this frame, and it was intact. -/
def Heard (model : Model) (past : List Occurrence) (frame : Bytes) : Prop :=
  Response.Intact frame model.family.resultLength ∧
    ∃ o ∈ past, ∃ capacity window, o.deedOf? .reader = some (.receive capacity window) ∧
      o.answer (.receive capacity window) = .ok frame

/-- The reader looked up the identifier of a frame that it had read, and this job was live under
it. -/
structure LookUp (model : Model) (past : List Occurrence) (frame : Bytes) (job : Job)
    (before : List Occurrence) (o : Occurrence) (after : List Occurrence) : Prop where
  split : past = before ++ o :: after
  deed : o.deedOf? .reader = some (.lookUp (model.slot (Response.echo frame)))
  heard : Heard model before frame
  live : o.live? (model.slot (Response.echo frame)) = some job
  installed : InstalledLast before (model.slot (Response.echo frame)) job

def LookedUp (model : Model) (past : List Occurrence) (frame : Bytes) (job : Job) : Prop :=
  ∃ before o after, LookUp model past frame job before o after

section

variable {model : Model} {past : List Occurrence} {frame : Bytes} {job : Job}

theorem Heard.concat (h : Heard model past frame) (o : Occurrence) :
    Heard model (past ++ [o]) frame := by
  obtain ⟨hintact, reading, hmem, hread⟩ := h
  exact ⟨hintact, reading, List.mem_append_left _ hmem, hread⟩

theorem LookedUp.concat (h : LookedUp model past frame job) (o : Occurrence) :
    LookedUp model (past ++ [o]) frame job := by
  obtain ⟨before, looking, after, hlook⟩ := h
  refine ⟨before, looking, after ++ [o], ?_, hlook.deed, hlook.heard, hlook.live, hlook.installed⟩
  rw [hlook.split, List.append_assoc, List.cons_append]

/-- What the reader has in hand it has read, and its job it has looked up. -/
def Hearing.Grounded (model : Model) (past : List Occurrence) : Hearing → Prop
  | .nothing => True
  | .heard frame => Heard model past frame
  | .matched frame job => LookedUp model past frame job
  | .passed frame job => LookedUp model past frame job

theorem Hearing.Grounded.concat {h : Hearing} (hgrounded : h.Grounded model past)
    (o : Occurrence) : h.Grounded model (past ++ [o]) := by
  cases h with
  | nothing => trivial
  | heard frame => exact Heard.concat hgrounded o
  | matched frame job => exact LookedUp.concat hgrounded o
  | passed frame job => exact LookedUp.concat hgrounded o

end

theorem Occurrence.transmitted_eq_nil {o : Occurrence} {action : Action}
    (hdeed : o.deed? = some action) (h : ∀ frame, action ≠ .transmit frame) :
    o.transmitted = [] := by
  unfold transmitted
  split
  · case _ frame hsome =>
      rw [hsome] at hdeed
      cases hdeed
      exact absurd rfl (h frame)
  · rfl

theorem Occurrence.delivered_eq_nil {o : Occurrence} {action : Action}
    (hdeed : o.deed? = some action) (h : ∀ found, action ≠ .deliver found) :
    o.delivered = [] := by
  unfold delivered
  split
  · case _ found hreader =>
      rw [deed?_of_deedOf? hreader] at hdeed
      cases hdeed
      exact absurd rfl (h found)
  · rfl

/-- What was ready for delivery and what becomes ready is delivered, or still ready. -/
theorem Occurrence.delivered_append_pending {model : Model} {o : Occurrence} {held : Hearing}
    (hmay : ∀ action, o.deedOf? .reader = some action → held.May model action) :
    o.delivered ++ (o.hear model held).pending model =
      held.pending model ++ o.due model held := by
  cases hdeed : o.deedOf? .reader with
  | none => simp [delivered, due, hear, hdeed]
  | some action =>
      have hmay := hmay action hdeed
      rw [delivered, due, hear, hdeed]
      cases action with
      | note entry => exact (List.append_nil _).symm
      | flush => exact (List.append_nil _).symm
      | receive capacity window =>
          have hnothing : held = .nothing := hmay
          dsimp only [Hearing.next]
          rw [hnothing]
          cases o.answer (.receive capacity window) with
          | error e => rfl
          | ok frame =>
              rw [Hearing.ofReply]
              split <;> rfl
      | lookUp id =>
          obtain ⟨frame, rfl, rfl⟩ := hmay
          dsimp only [Hearing.next]
          cases o.answer (.lookUp _) <;> rfl
      | screen nonce =>
          obtain ⟨frame, job, rfl, rfl⟩ := hmay
          rfl
      | deliver found =>
          obtain ⟨frame, job, rfl, rfl⟩ := hmay
          rfl
      | _ => exact hmay.elim

/-! ## What holds at every moment -/

/-- The machine after these occurrences, begun in this world, is as they tell. -/
structure Told (d : Daemon) (start : World) (past : List Occurrence) (m : Machine) : Prop where
  parties : PartiesSound d past m
  live : ∀ id job, m.world.ledger.jobs.get? id = some job → InstalledLast past id job
  assigned : (errand past).Grounded past m.world.ledger.jobs
  held : (hearing d.settings.model past).Grounded d.settings.model past
  frames : m.world.frames = start.frames ++ transmitted past
  results : m.world.consumer = .present → m.world.results = start.results ++ delivered past
  account : delivered past ++ (hearing d.settings.model past).pending d.settings.model =
    due d.settings.model .nothing past

namespace Told

variable {d : Daemon} {start : World} {past : List Occurrence} {m m' : Machine} {move : Move}

theorem keepsJobs (h : Told d start past m)
    (hnone : Occurrence.deedOf? ⟨m, move⟩ .dispatcher = none) {action : Action}
    (hdeed : Occurrence.deed? ⟨m, move⟩ = some action) : action.KeepsJobs := by
  cases h.parties.deed hdeed with
  | reader _ _ hmay => exact hmay.keepsJobs
  | dispatcher hdispatcher _ _ =>
      rw [hnone] at hdispatcher
      cases hdispatcher
  | manager _ _ haside => exact haside.keepsJobs

theorem jobs_eq (hstep : Step d m move m')
    (hkeeps : ∀ action, Occurrence.deed? ⟨m, move⟩ = some action → action.KeepsJobs) :
    m'.world.ledger.jobs = m.world.ledger.jobs := by
  cases hdeed : Occurrence.deed? ⟨m, move⟩ with
  | none => exact (hstep.alike hdeed).jobs
  | some action => rw [hstep.world_of_deed hdeed, World.jobs_perform (hkeeps action hdeed)]

theorem live_step (h : Told d start past m) (hstep : Step d m move m') (id : UInt8) (job : Job)
    (hlive : m'.world.ledger.jobs.get? id = some job) :
    InstalledLast (past ++ [⟨m, move⟩]) id job := by
  by_cases hkeeps : ∀ action, Occurrence.deed? ⟨m, move⟩ = some action → action.KeepsJobs
  · rw [jobs_eq hstep hkeeps] at hlive
    exact (h.live id job hlive).concat_of_keepsJobs hkeeps
  · push Not at hkeeps
    obtain ⟨action, hdeed, hchanges⟩ := hkeeps
    have hworld := hstep.world_of_deed hdeed
    cases action with
    | clearJobs =>
        rw [hworld] at hlive
        have hempty := Registry.get?_empty id
        exact nomatch hempty.symm.trans hlive
    | install other newest =>
        cases h.parties.deed hdeed with
        | reader _ _ hmay => exact hmay.elim
        | manager _ _ haside => exact haside.elim
        | dispatcher hdispatcher _ hmay =>
            have hdrawn := h.assigned
            rw [hmay] at hdrawn
            obtain ⟨hhanded, hspace⟩ := hdrawn
            have hget : (m.world.ledger.jobs.install other newest).get? id = some job := by
              rwa [hworld] at hlive
            rw [Registry.get?_install hspace] at hget
            by_cases hid : id = other
            · rw [if_pos hid] at hget
              cases hget
              subst hid
              exact .concat_install hdispatcher hhanded
            · rw [if_neg hid] at hget
              refine (h.live id job hget).concat ?_ ?_
              · simp [hdeed]
              · simp [hdeed, Ne.symm hid]
    | _ => exact absurd trivial hchanges

theorem assigned_step (h : Told d start past m) (hstep : Step d m move m') :
    (errand (past ++ [⟨m, move⟩])).Grounded (past ++ [⟨m, move⟩]) m'.world.ledger.jobs := by
  have hgrounded := h.assigned
  rw [errand_concat]
  cases htaken : Occurrence.taken? ⟨m, move⟩ with
  | some message =>
      rw [Occurrence.advance_of_taken htaken]
      cases message with
      | work job => exact ⟨⟨m, move⟩, by simp, htaken⟩
      | cleanJobs => trivial
  | none =>
      cases hdeed : Occurrence.deedOf? ⟨m, move⟩ .dispatcher with
      | none =>
          rw [Occurrence.advance_of_none htaken hdeed, jobs_eq hstep fun _ => h.keepsJobs hdeed]
          exact hgrounded.concat _
      | some action =>
          have hworld := hstep.world_of_deed (Occurrence.deed?_of_deedOf? hdeed)
          have hmay := h.parties.dispatcher_may hdeed
          rw [Occurrence.advance_of_deed htaken hdeed, hworld]
          cases action with
          | note entry => exact hgrounded.concat _
          | countLive => exact hgrounded.concat _
          | drawId =>
              obtain ⟨job, hholding⟩ := hmay
              rw [hholding] at hgrounded ⊢
              exact ⟨Handed.concat hgrounded _, IdAllocator.next_lt _⟩
          | install id job =>
              have hdrawn : errand past = .drawn job id := hmay
              rw [hdrawn] at hgrounded ⊢
              change (m.world.ledger.jobs.install id job).get? id = some job
              rw [Registry.get?_install hgrounded.2, if_pos rfl]
          | transmit frame => trivial
          | clearJobs => trivial
          | _ => exact hmay.elim

theorem held_step (h : Told d start past m) :
    (hearing d.settings.model (past ++ [⟨m, move⟩])).Grounded d.settings.model
      (past ++ [⟨m, move⟩]) := by
  have hheld := h.held
  rw [hearing_concat]
  cases hdeed : Occurrence.deedOf? ⟨m, move⟩ .reader with
  | none =>
      rw [Occurrence.hear_of_none hdeed]
      exact hheld.concat _
  | some action =>
      have hmay := h.parties.reader_may hdeed
      rw [Occurrence.hear_of_deed hdeed]
      cases action with
      | note entry => exact hheld.concat _
      | flush => exact hheld.concat _
      | receive capacity window =>
          rw [Hearing.next]
          cases hanswer : Occurrence.answer ⟨m, move⟩ (.receive capacity window) with
          | error e => trivial
          | ok frame =>
              by_cases hintact : Response.Intact frame d.settings.model.family.resultLength
              · rw [Hearing.ofReply, if_pos hintact]
                exact ⟨hintact, ⟨m, move⟩, by simp, capacity, window, hdeed, hanswer⟩
              · rw [Hearing.ofReply, if_neg hintact]
                trivial
      | lookUp id =>
          obtain ⟨frame, hheard, rfl⟩ := hmay
          rw [hheard] at hheld ⊢
          rw [Hearing.next]
          cases hanswer : Occurrence.answer ⟨m, move⟩ (.lookUp _) with
          | none => trivial
          | some job =>
              exact ⟨past, ⟨m, move⟩, [], rfl, hdeed, hheld, hanswer, h.live _ _ hanswer⟩
      | screen nonce =>
          obtain ⟨frame, job, hmatched, rfl⟩ := hmay
          rw [hmatched] at hheld ⊢
          rw [Hearing.next]
          cases Occurrence.answer ⟨m, move⟩ (.screen _) with
          | true => exact LookedUp.concat hheld _
          | false => trivial
      | deliver found => trivial
      | _ => exact hmay.elim

theorem account_step (h : Told d start past m) :
    delivered (past ++ [⟨m, move⟩]) ++
        (hearing d.settings.model (past ++ [⟨m, move⟩])).pending d.settings.model =
      due d.settings.model .nothing (past ++ [⟨m, move⟩]) := by
  have hmay : ∀ action, Occurrence.deedOf? ⟨m, move⟩ .reader = some action →
      (hearing d.settings.model past).May d.settings.model action :=
    fun _ => h.parties.reader_may
  have hsettled := Occurrence.delivered_append_pending hmay
  rw [hearing_concat, delivered_concat, due_concat, ← h.account, List.append_assoc, hsettled,
    ← List.append_assoc]
  rfl

theorem frames_step (h : Told d start past m) (hstep : Step d m move m') :
    m'.world.frames = start.frames ++ transmitted (past ++ [⟨m, move⟩]) := by
  have hsent : m'.world.frames = m.world.frames ++ Occurrence.transmitted ⟨m, move⟩ := by
    cases hdeed : Occurrence.deed? ⟨m, move⟩ with
    | none => simp [Occurrence.transmitted, hdeed, (hstep.alike hdeed).frames]
    | some action =>
        rw [hstep.world_of_deed hdeed]
        by_cases htransmit : ∃ frame, action = .transmit frame
        · obtain ⟨frame, rfl⟩ := htransmit
          rw [World.frames_perform_transmit, Occurrence.transmitted, hdeed]
          rfl
        · have hnone : Occurrence.transmitted ⟨m, move⟩ = [] :=
            Occurrence.transmitted_eq_nil hdeed fun frame heq => htransmit ⟨frame, heq⟩
          rw [World.frames_perform fun frame heq => htransmit ⟨frame, heq⟩, hnone, List.append_nil]
  rw [hsent, h.frames, transmitted_concat, List.append_assoc]

theorem results_step (h : Told d start past m) (hstep : Step d m move m')
    (hpresent : m'.world.consumer = .present) :
    m'.world.results = start.results ++ delivered (past ++ [⟨m, move⟩]) := by
  have htaken : m.world.consumer = .present ∧
      m'.world.results = m.world.results ++ Occurrence.delivered ⟨m, move⟩ := by
    cases hdeed : Occurrence.deed? ⟨m, move⟩ with
    | none =>
        have halike := hstep.alike hdeed
        have hnone := Occurrence.deedOf?_of_deed?_eq_none hdeed .reader
        refine ⟨halike.consumer hpresent, ?_⟩
        simp [World.results, Occurrence.delivered, hnone, halike.found]
    | some action =>
        rw [hstep.world_of_deed hdeed, World.consumer_perform] at hpresent
        refine ⟨hpresent, ?_⟩
        rw [hstep.world_of_deed hdeed]
        by_cases hdeliver : ∃ found, action = .deliver found
        · obtain ⟨found, rfl⟩ := hdeliver
          have hreader := h.parties.reader_of_deliver hdeed
          rw [Occurrence.delivered, hreader]
          exact m.world.results_perform_deliver found hpresent
        · have hnone : Occurrence.delivered ⟨m, move⟩ = [] :=
            Occurrence.delivered_eq_nil hdeed fun found heq => hdeliver ⟨found, heq⟩
          rw [World.results_perform fun found heq => hdeliver ⟨found, heq⟩, hnone, List.append_nil]
  rw [htaken.2, h.results htaken.1, delivered_concat, List.append_assoc]

theorem step (h : Told d start past m) (hstep : Step d m move m') :
    Told d start (past ++ [⟨m, move⟩]) m' where
  parties := h.parties.step hstep
  live := h.live_step hstep
  assigned := h.assigned_step hstep
  held := h.held_step
  frames := h.frames_step hstep
  results := h.results_step hstep
  account := h.account_step

theorem run (h : Told d start past m) {moves : List Move} {later : List Occurrence}
    {last : Machine} (hharmless : ∀ move ∈ moves, move.Harmless)
    (hrun : m.run d moves = some (later, last)) : Told d start (past ++ later) last := by
  refine run_keeps ?_ h (forall_move_of_run hharmless hrun) hrun
  intro _ _ _ _ htold hmove hmake
  exact htold.step (step_of_make htold.parties.supervisor hmove hmake)

/-- As often as the reader has its turn, it comes to have nothing in hand. -/
theorem settles (h : Told d start past m) {moves : List Move} {later : List Occurrence}
    {last : Machine} (hharmless : ∀ move ∈ moves, move.Harmless)
    (hrun : m.run d moves = some (later, last)) {limit : Nat}
    (hbrief : ReaderBrief limit m.reader) (hturns : limit ≤ moves.countP Move.isReading) :
    ∃ settled last, settled <+: later ∧ Told d start (past ++ settled) last ∧
      hearing d.settings.model (past ++ settled) = .nothing := by
  by_cases hsome : hearing d.settings.model past = .nothing
  · exact ⟨[], m, List.nil_prefix, by simpa using h, by simpa using hsome⟩
  induction moves generalizing past m later limit with
  | nil =>
      have hzero : limit = 0 := by simpa using hturns
      obtain ⟨wake, action, next, hbusy, -⟩ := h.parties.reader.busy hsome
      rw [hzero, hbusy] at hbrief
      exact hbrief.elim
  | cons move rest ih =>
      obtain ⟨m', tail, hmake, hrest, rfl⟩ := run_cons_eq_some hrun
      have hstep := step_of_make h.parties.supervisor (hharmless move (by simp)) hmake
      obtain ⟨left, hleft, hle, hlt⟩ := hstep.reader_nears h.parties.reader hsome hbrief
      have hfollowing := h.step hstep
      by_cases hsettled : hearing d.settings.model (past ++ [⟨m, move⟩]) = .nothing
      · exact ⟨[⟨m, move⟩], m', ⟨tail, rfl⟩, hfollowing, hsettled⟩
      · have hcount : left ≤ rest.countP Move.isReading := by
          rw [List.countP_cons] at hturns
          split at hturns
          · have hfewer := hlt ‹_›
            omega
          · omega
        obtain ⟨settled, last, ⟨unsettled, rfl⟩, htold, hnothing⟩ := ih hfollowing
          (fun move hmem => hharmless move (by simp [hmem])) hrest hleft hcount hsettled
        refine ⟨⟨m, move⟩ :: settled, last, ⟨unsettled, rfl⟩, ?_, ?_⟩
        · simpa using htold
        · simpa using hnothing

end Told

/-! ## The whole run -/

/-- No party is at work yet, and no job is live. -/
structure Machine.Unlaunched (m : Machine) : Prop where
  jobs : m.world.ledger.jobs = .empty
  dispatcher : ∀ a, m.dispatcher ≠ .handling a

theorem Machine.launch_eq (m : Machine) (d : Daemon) (interval : Float)
    (h : ∀ a, m.dispatcher ≠ .handling a) :
    ∃ journal dispatcher supervisor, (∀ a, dispatcher ≠ .handling a) ∧
      (d.hasWork = true → dispatcher = .idle m.now) ∧ (∀ a, supervisor ≠ .starting a) ∧
      m.launch d interval =
        { m with
          world := { m.world with journal }
          startedAt := some m.now
          jobRest := Daemon.restMs interval
          manager := .polling ⟨m.now, (Manager.startingAt d.settings.frequency).begin d.controller⟩
          reader := .reading ⟨m.now, d.readOnce⟩ true
          dispatcher
          supervisor } := by
  unfold launch
  cases d.hasWork with
  | false => cases d.selfRunning <;> exact ⟨_, m.dispatcher, _, h, nofun, by simp, rfl⟩
  | true => cases d.selfRunning <;> exact ⟨_, .idle m.now, _, by simp, fun _ => rfl, by simp, rfl⟩

theorem Machine.Unlaunched.told {m : Machine} (h : m.Unlaunched) (d : Daemon) (interval : Float) :
    Told d m.world [] (m.launch d interval) := by
  obtain ⟨journal, dispatcher, supervisor, hidle, -, hstarted, hlaunch⟩ :=
    m.launch_eq d interval h.dispatcher
  rw [hlaunch]
  refine ⟨⟨?_, d.readOnce_brief, ?_, ?_, hstarted⟩, ?_, trivial, trivial, ?_, ?_, rfl⟩
  · exact ⟨d.readOnce_obeys, .inl rfl⟩
  · cases dispatcher with
    | handling a => exact absurd rfl (hidle a)
    | _ => trivial
  · rintro a ⟨⟩
    exact (Manager.startingAt d.settings.frequency).begin_aside d
  · intro id job hlive
    rw [h.jobs, Registry.get?_empty] at hlive
    cases hlive
  · exact (List.append_nil _).symm
  · exact fun _ => (List.append_nil _).symm

/-- What these occurrences, begun in this world and come to this machine, keep of work and
results. -/
structure Daemon.Faithful (d : Daemon) (start : World) (past : List Occurrence) (m : Machine) :
    Prop where
  /-- On the wire is what was sent. -/
  frames : m.world.frames = start.frames ++ transmitted past
  /-- When a job's frame is sent, that job is live under the frame's identifier. -/
  sent : ∀ before o after payload, past = before ++ o :: after →
    o.deed? = some (.transmit (Command.job payload).frame) →
    ∃ job id, (Command.job payload).frame = d.settings.model.jobFrame job id ∧
      o.live? id = some job ∧ InstalledLast before id job
  /-- Each action of the reader is the one due for what it has in hand, so it never drops one frame
  for another. -/
  reading : ∀ before o after action, past = before ++ o :: after →
    o.deedOf? .reader = some action →
    (hearing d.settings.model before).May d.settings.model action
  /-- A result is what its frame makes of the job that was live when the reader looked it up. -/
  matched : ∀ before o after found, past = before ++ o :: after →
    o.deedOf? .reader = some (.deliver found) →
    ∃ frame, found = d.settings.model.foundIn frame found.job ∧
      LookedUp d.settings.model before frame found.job
  /-- A consumer that is still there has taken what was delivered. -/
  results : m.world.consumer = .present → m.world.results = start.results ++ delivered past
  /-- What was due was delivered once and in order, up to what the reader has in hand. -/
  account : delivered past ++ (hearing d.settings.model past).pending d.settings.model =
    due d.settings.model .nothing past
  /-- With something in hand the reader cannot leave, and its turn is never put off. -/
  carried : hearing d.settings.model past ≠ .nothing →
    m.quit .reader = none ∧ (m.make d (.turn .reader)).isSome
  /-- After so many turns of the reader at most, there is a moment with nothing left in hand. -/
  settles : ∀ moves later last, (∀ move ∈ moves, Move.Harmless move) →
    m.run d moves = some (later, last) → Daemon.readingLimit ≤ moves.countP Move.isReading →
    ∃ settled, settled <+: later ∧ hearing d.settings.model (past ++ settled) = .nothing ∧
      delivered (past ++ settled) = due d.settings.model .nothing (past ++ settled)

namespace Told

variable {d : Daemon} {start : World} {past : List Occurrence} {m : Machine}

theorem sent {o : Occurrence} (h : Told d start past o.machine) {payload : Bytes}
    (hdeed : o.deed? = some (.transmit (Command.job payload).frame)) :
    ∃ job id, (Command.job payload).frame = d.settings.model.jobFrame job id ∧
      o.live? id = some job ∧ InstalledLast past id job := by
  cases h.parties.deed hdeed with
  | reader _ _ hmay => exact hmay.elim
  | manager _ _ haside =>
      obtain ⟨c, hother, hframe⟩ := haside
      rw [Command.isJob_of_frame_eq hframe] at hother
      cases hother
  | dispatcher _ _ hmay =>
      obtain ⟨job, id, hinstalled, hframe⟩ := hmay
      have hlive := h.assigned
      rw [hinstalled] at hlive
      exact ⟨job, id, hframe, hlive, h.live id job hlive⟩

theorem matched {o : Occurrence} (h : Told d start past o.machine) {found : Found}
    (hdeed : o.deedOf? .reader = some (.deliver found)) :
    ∃ frame, found = d.settings.model.foundIn frame found.job ∧
      LookedUp d.settings.model past frame found.job := by
  obtain ⟨frame, job, hpassed, rfl⟩ := h.parties.reader_may hdeed
  have hlook := h.held
  rw [hpassed] at hlook
  exact ⟨frame, rfl, hlook⟩

theorem carried (h : Told d start past m) (hsome : hearing d.settings.model past ≠ .nothing) :
    m.quit .reader = none ∧ (m.make d (.turn .reader)).isSome := by
  obtain ⟨wake, action, next, hbusy, hwake⟩ := h.parties.reader.busy hsome
  constructor
  · simp [quit, hbusy]
  · have hready : ¬ m.now < wake := Nat.not_lt.2 hwake
    simp [make, turn, readerTurn, hbusy, hready, Pace.stepwise, single]

end Told

theorem Machine.launch_faithful (d : Daemon) (interval : Float) {m₀ m : Machine}
    (hunlaunched : m₀.Unlaunched) {moves : List Move} {past : List Occurrence}
    (hharmless : ∀ move ∈ moves, move.Harmless)
    (hrun : (m₀.launch d interval).run d moves = some (past, m)) :
    d.Faithful m₀.world past m := by
  have hbegun := hunlaunched.told d interval
  have htold : Told d m₀.world past m := hbegun.run hharmless hrun
  -- What holds of the whole run holds of every part of it that comes before an occurrence.
  have hbefore : ∀ before o after, past = before ++ o :: after →
      Told d m₀.world before o.machine := by
    rintro before o after rfl
    obtain ⟨first, rest, rfl, hfirst⟩ := run_of_split hrun
    exact hbegun.run (fun move hmem => hharmless move (by simp [hmem])) hfirst
  refine ⟨htold.frames, ?_, ?_, ?_, htold.results, htold.account, htold.carried, ?_⟩
  · intro before o after payload hsplit hdeed
    exact (hbefore before o after hsplit).sent hdeed
  · intro before o after action hsplit hdeed
    exact (hbefore before o after hsplit).parties.reader_may hdeed
  · intro before o after found hsplit hdeed
    exact (hbefore before o after hsplit).matched hdeed
  · intro moves later last hharmless hlater hturns
    obtain ⟨settled, _, hprefix, hthen, hnothing⟩ :=
      htold.settles hharmless hlater htold.parties.brief hturns
    have haccount := hthen.account
    rw [hnothing] at haccount
    exact ⟨settled, hprefix, hnothing, by simpa [Hearing.pending] using haccount⟩

namespace Machine

def watchful : Daemon :=
  { settings := { (default : Settings) with model := .bm1370 }
    hasWork := true
    selfRunning := false
    listen := none }

def expectant : Machine :=
  { world := { World.fresh .bm1370 with
      line := { replies := [.bytes Model.report] }
      consumer := .present }
    supervisor := .standing }

/-- The reader looks the identifier up before the job's frame goes out. -/
def overtaking : List Move :=
  .meet (.message (.work { version := 0x20000000 })) ::
    List.replicate 3 (.turn .dispatcher) ++ List.replicate 4 (.turn .reader) ++
    List.replicate 3 (.turn .dispatcher) ++ List.replicate 3 (.turn .reader)

theorem launch_faithful_of_overtaking :
    ∃ past m, (expectant.launch watchful 0).run watchful overtaking = some (past, m) ∧
      watchful.Faithful expectant.world past m ∧ m.world.frames.length = 1 ∧
      m.world.results = [⟨{ version := 0x20000000 },
        24, 0x12345678, 0x20006000, { version := 0x20000000 }⟩] := by
  have hunlaunched : expectant.Unlaunched := ⟨rfl, nofun⟩
  have hharmless : ∀ move ∈ overtaking, move.Harmless := by
    simp [overtaking, Move.Harmless]
  have hends : ((expectant.launch watchful 0).run watchful overtaking).map
      (fun ran => (ran.2.world.frames.length, ran.2.world.results)) =
        some (1, [⟨{ version := 0x20000000 },
          24, 0x12345678, 0x20006000, { version := 0x20000000 }⟩]) := by
    decide +kernel
  obtain ⟨⟨past, m⟩, hrun, hend⟩ := Option.map_eq_some_iff.1 hends
  obtain ⟨hsent, hresults⟩ := Prod.mk.inj hend
  exact ⟨past, m, hrun, launch_faithful watchful 0 hunlaunched hharmless hrun, hsent, hresults⟩

end Machine

end ChipChain
