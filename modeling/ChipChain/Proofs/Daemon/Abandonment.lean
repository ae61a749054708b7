import ChipChain.Proofs.Daemon.Resting

/-!
# Abandoned work

When everything that can happen at an instant happens before the clock moves, a
cleaning that the dispatcher is ready for takes effect before time passes. So no
result that is read later comes of a job that was dispatched before
(`launch_abandons`). While the dispatcher rests after a job, a cleaning waits with it
(`Withholds`), and such results are still delivered (`rest_delays_cleaning`).

A reader that waits for input is answered when input comes in, which may be at any
time within its window. So of all that can happen at an instant, its reading alone can
be put off (`Machine.urgent`).
-/

namespace ChipChain

open Machine Routine

/-! ## Time -/

def Party.all : List Party :=
  [.manager, .reader, .dispatcher, .supervisor]

/-- The reader is about to read, and nothing has come in: its wait goes on until something does, or
until the window is over. -/
def Machine.awaitsInput (m : Machine) : Bool :=
  match m.reader with
  | .reading ⟨_, .act (.receive _ _) _⟩ true => m.world.line.replies.isEmpty
  | _ => false

/-- A party has something to do before time can pass: to leave, or to take its turn. A reader that
waits for input can put its turn off, so that a reading takes place when it is answered. -/
def Machine.urgent (d : Daemon) (m : Machine) (party : Party) : Bool :=
  (m.quit party).isSome ||
    ((m.turn d .stepwise party).isSome && !(party = .reader && m.awaitsInput))

/-- Time passes only when nobody has anything to do. -/
def Occurrence.punctual (d : Daemon) (o : Occurrence) : Bool :=
  match o.move with
  | .elapse _ => Party.all.all fun party => !o.machine.urgent d party
  | _ => true

namespace Machine

variable {d : Daemon} {m m' : Machine} {move : Move}

theorem WorldStep.clock {w : World} (h : WorldStep m move w) (hharmless : move.Harmless)
    (hstands : ∀ ms, move ≠ .elapse ms) : w.clock = m.now := by
  cases h with
  | deed => exact World.clock_perform _ _
  | noted => rfl
  | changed hmove =>
      subst hmove
      exact (hharmless m.world).2
  | elapsed hmove => exact absurd hmove (hstands _)

theorem now_eq_of_urgent (h : WorldStep m move m'.world) (hharmless : move.Harmless)
    (hpunctual : Occurrence.punctual d ⟨m, move⟩ = true) {party : Party}
    (hurgent : m.urgent d party = true) : m'.now = m.now := by
  refine h.clock hharmless ?_
  rintro ms rfl
  have hall := List.all_eq_true.1 hpunctual party (by cases party <;> simp [Party.all])
  rw [hurgent] at hall
  cases hall

theorem urgent_of_quit {party : Party} (h : (m.quit party).isSome) : m.urgent d party = true := by
  rw [urgent, h, Bool.true_or]

/-- Only the reader puts its turn off. -/
theorem urgent_of_turn {party : Party} (h : (m.turn d .stepwise party).isSome)
    (hother : party ≠ .reader) : m.urgent d party = true := by
  simp [urgent, h, hother]

theorem Step.reader_stopped (h : Step d m move m') (hstopped : m.reader = .stopped) :
    m'.reader = .stopped := by
  cases h with
  | read hrest | reread hrest | lose hrest | leave hrest =>
      rw [hstopped] at hrest
      cases hrest
  | quiet _ _ _ hreader => exact hreader.trans hstopped
  | _ => exact hstopped

end Machine

/-- A reader that cannot be stopped has something to do at once. -/
def ReaderPrompt (now : Nat) : ReaderTask → Prop
  | .reading a false => a.wake ≤ now
  | _ => True

theorem Machine.Step.reader_prompt {d : Daemon} {m m' : Machine} {move : Move}
    (h : Step d m move m') (hprompt : ReaderPrompt m.now m.reader) :
    ReaderPrompt m'.now m'.reader := by
  have hnow := h.now_le
  have hsame (hreader : m'.reader = m.reader) : ReaderPrompt m'.now m'.reader := by
    rw [hreader]
    cases hrest : m.reader with
    | stopped => trivial
    | reading a breakable =>
        rw [hrest] at hprompt
        cases breakable with
        | true => trivial
        | false => exact Nat.le_trans hprompt hnow
  cases h with
  | @read wake action next breakable hrest =>
      by_cases hwait : (m.world.perform action).2.1 = 0
      · show ReaderPrompt _ (.reading _ ((m.world.perform action).2.1 != 0))
        rw [hwait]
        exact Nat.le_refl _
      · have hbreakable : ((m.world.perform action).2.1 != 0) = true := by simpa using hwait
        show ReaderPrompt _ (.reading _ ((m.world.perform action).2.1 != 0))
        rw [hbreakable]
        trivial
  | reread | lose | leave => trivial
  | quiet _ _ _ hreader => exact hsame hreader
  | _ => exact hsame rfl

theorem ReaderPrompt.urgent {d : Daemon} {m : Machine} (h : ReaderPrompt m.now m.reader)
    (hshutdown : m.shutdown = true) (hthere : m.reader ≠ .stopped) :
    m.urgent d .reader = true := by
  cases hreader : m.reader with
  | stopped => exact absurd hreader hthere
  | reading a breakable =>
      obtain ⟨wake, rest⟩ := a
      cases breakable with
      | true => exact urgent_of_quit (by simp [quit, hreader, hshutdown])
      | false =>
          rw [hreader] at h
          have hready : ¬ m.now < wake := Nat.not_lt.2 h
          have hbusy : m.awaitsInput = false := by simp [awaitsInput, hreader]
          have hturn : (m.turn d .stepwise .reader).isSome := by
            cases rest <;> simp [turn, readerTurn, hreader, hready, Pace.stepwise, single]
          rw [Machine.urgent, hturn, hbusy]
          simp

/-! ## What holds at every moment -/

/-- Besides, a reader that cannot be stopped keeps nobody waiting. -/
structure Timely (d : Daemon) (start : World) (past : List Occurrence) (m : Machine) : Prop
    extends Followed d start past m where
  prompt : ReaderPrompt m.now m.reader

/-- Every step of a punctual run keeps this. -/
def Kept (d : Daemon) (start : World) (P : List Occurrence → Machine → Prop) : Prop :=
  ∀ {past m move m'}, Timely d start past m → P past m → Move.Harmless move →
    Occurrence.punctual d ⟨m, move⟩ = true → m.make d move = some m' → P (past ++ [⟨m, move⟩]) m'

namespace Timely

variable {d : Daemon} {start : World} {past : List Occurrence} {m m' : Machine} {move : Move}

theorem step (h : Timely d start past m) (hharmless : move.Harmless)
    (hmake : m.make d move = some m') : Timely d start (past ++ [⟨m, move⟩]) m' := by
  have hstep := step_of_make h.told.parties.supervisor hharmless hmake
  exact ⟨h.toFollowed.step hharmless hmake, hstep.reader_prompt h.prompt⟩

theorem reaches (h : Timely d start past m) {moves : List Move} {later : List Occurrence}
    {last : Machine} (hharmless : ∀ move ∈ moves, move.Harmless)
    (hrun : m.run d moves = some (later, last)) : Timely d start (past ++ later) last :=
  run_keeps (fun htimely => htimely.step) h (forall_move_of_run hharmless hrun) hrun

theorem run {P : List Occurrence → Machine → Prop} (hkept : Kept d start P)
    (h : Timely d start past m) (hholds : P past m) {moves : List Move} {later : List Occurrence}
    {last : Machine} (hharmless : ∀ move ∈ moves, move.Harmless)
    (hpunctual : ∀ o ∈ later, o.punctual d = true) (hrun : m.run d moves = some (later, last)) :
    P (past ++ later) last := by
  have hallowed : ∀ o ∈ later, o.move.Harmless ∧ o.punctual d = true := fun o hmem =>
    ⟨forall_move_of_run hharmless hrun o hmem, hpunctual o hmem⟩
  have hboth : Timely d start (past ++ later) last ∧ P (past ++ later) last := by
    refine run_keeps (P := fun past m => Timely d start past m ∧ P past m) ?_ ⟨h, hholds⟩ hallowed
      hrun
    intro _ _ _ _ ⟨htimely, hhere⟩ ⟨hmove, hon⟩ hmake
    exact ⟨htimely.step hmove hmake, hkept htimely hhere hmove hon hmake⟩
  exact hboth.2

theorem now_le (h : Timely d start past m) {moves : List Move} {later : List Occurrence}
    {last : Machine} (hharmless : ∀ move ∈ moves, move.Harmless)
    (hpunctual : ∀ o ∈ later, o.punctual d = true) (hrun : m.run d moves = some (later, last)) :
    m.now ≤ last.now := by
  have hkept : Kept d start fun _ reached => m.now ≤ reached.now := by
    intro _ _ move _ htimely hle hmove _ hmake
    exact hle.trans (step_of_make htimely.told.parties.supervisor hmove hmake).now_le
  exact run hkept h (Nat.le_refl _) hharmless hpunctual hrun

end Timely

/-! ## Cleaning -/

/-- The next message cleans all jobs away. -/
def Machine.CleaningAhead (m : Machine) : Prop :=
  m.inbox.head? = some .cleanJobs

/-- The next message cleans all jobs away, and the dispatcher neither follows another one nor has to
rest before it. -/
def Machine.CleaningDue (m : Machine) : Prop :=
  m.CleaningAhead ∧
    match m.dispatcher with
    | .idle _ => True
    | .resting wake => wake ≤ m.now
    | _ => False

instance (m : Machine) : Decidable m.CleaningDue :=
  @instDecidableAnd _ _ (inferInstanceAs (Decidable (m.inbox.head? = some .cleanJobs)))
    (match m.dispatcher with
    | .idle _ => isTrue trivial
    | .resting wake => inferInstanceAs (Decidable (wake ≤ m.now))
    | .handling _ => isFalse id
    | .stopped => isFalse id)

theorem Machine.CleaningDue.ready {d : Daemon} {m : Machine} (h : m.CleaningDue) :
    (m.turn d .stepwise .dispatcher).isSome := by
  obtain ⟨hhead, hready⟩ := h
  obtain ⟨inbox, hinbox⟩ := List.head?_eq_some_iff.1 hhead
  cases hdispatcher : m.dispatcher with
  | idle since => simp [turn, dispatcherTurn, hdispatcher, hinbox]
  | resting wake =>
      rw [hdispatcher] at hready
      have hover : ¬ m.now < wake := Nat.not_lt.2 hready
      simp [turn, dispatcherTurn, hdispatcher, hover]
  | _ =>
      rw [hdispatcher] at hready
      exact hready.elim

/-- What has become of a cleaning that was due at this time, after these occurrences. -/
inductive Cleaning (mark : List Occurrence) (time : Nat) (past : List Occurrence) (m : Machine) :
    Prop
  | waiting (hnow : m.now = time) (hdue : m.CleaningDue)
  | clearing (hnow : m.now = time) (herrand : errand past = .clearing)
  | cleared {before : List Occurrence} {o : Occurrence} {after : List Occurrence}
      (hsplit : past = before ++ o :: after) (hmark : mark <+: before)
      (hdeed : o.deed? = some .clearJobs)
  /-- The dispatcher has left before it took the message. -/
  | left (hstopped : m.dispatcher = .stopped) (hshutdown : m.shutdown = true)
      (hreader : m.now = time ∨ m.reader = .stopped)

namespace Cleaning

variable {d : Daemon} {start : World} {mark past : List Occurrence} {time : Nat} {m m' : Machine}
  {move : Move}

theorem waiting_step (hnow : m.now = time)
    (hdue : m.CleaningDue) (hstep : DispatcherStep d m move m') (hsame : m'.now = m.now) :
    Cleaning mark time (past ++ [⟨m, move⟩]) m' := by
  obtain ⟨hhead, hready⟩ := hdue
  have hhead : m.inbox.head? = some .cleanJobs := hhead
  cases hstep with
  | act hrest =>
      rw [hrest] at hready
      exact hready.elim
  | @take since message inbox hidle hinbox =>
      have hmessage : message = .cleanJobs := by simpa [hinbox] using hhead
      have htaken := Occurrence.taking hidle hinbox
      refine .clearing hnow ?_
      rw [errand_concat, Occurrence.advance_of_taken htaken, hmessage]
      rfl
  | shift hshift =>
      cases hshift with
      | finish hrest =>
          rw [hrest] at hready
          exact hready.elim
      | lose hrest =>
          rw [hrest] at hready
          exact hready.elim
      | rise => exact .waiting hnow ⟨hhead, trivial⟩
      | close _ hinbox => simp [hinbox] at hhead
      | leave _ hshutdown => exact .left rfl hshutdown (.inl hnow)
      | aside _ hspares =>
          refine .waiting (hsame.trans hnow) ⟨?_, ?_⟩
          · obtain ⟨more, hmore⟩ := hspares.inbox
            rw [CleaningAhead, ← hmore, List.head?_append, hhead]
            rfl
          · rw [hspares.dispatcher, hsame]
            exact hready

theorem clearing_step (htimely : Timely d start past m) (hmark : mark <+: past)
    (hnow : m.now = time) (herrand : errand past = .clearing)
    (hstep : DispatcherStep d m move m') (hsame : m'.now = m.now) :
    Cleaning mark time (past ++ [⟨m, move⟩]) m' := by
  have hkeeps := htimely.keeps
  rw [herrand] at hkeeps
  obtain ⟨a, hhandling⟩ := hkeeps.handling nofun
  rw [hhandling] at hkeeps
  cases hstep with
  | @act wake action next hrest =>
      cases hhandling.symm.trans hrest
      obtain ⟨-, message, -, -, hmay, -⟩ := hkeeps
      obtain ⟨htaken, hdeed⟩ := Occurrence.acting hrest
      have herrand' : errand (past ++ [⟨m, .turn .dispatcher⟩]) =
          Errand.clearing.next action (Occurrence.answer ⟨m, .turn .dispatcher⟩ action) := by
        rw [errand_concat, Occurrence.advance_of_deed htaken hdeed, herrand]
      cases action with
      | note | countLive => exact .clearing (hsame.trans hnow) herrand'
      | clearJobs => exact .cleared rfl hmark (Occurrence.deed?_of_deedOf? hdeed)
      | drawId => cases hmay.choose_spec
      | install => cases hmay
      | transmit => cases hmay.choose_spec.choose_spec.1
      | _ => exact hmay.elim
  | take hidle => cases hhandling.symm.trans hidle
  | shift hshift =>
      cases hshift with
      | finish hrest =>
          cases hhandling.symm.trans hrest
          obtain ⟨-, message, -, -, hidle, -⟩ := hkeeps
          cases hidle
      | lose hrest =>
          cases hhandling.symm.trans hrest
          obtain ⟨-, message, -, -, hidle, -⟩ := hkeeps
          cases hidle
      | rise hresting => cases hhandling.symm.trans hresting
      | close hidle => cases hhandling.symm.trans hidle
      | leave hfree => exact absurd hhandling (hfree a)
      | @aside _ _ hmove hspares =>
          obtain ⟨htaken, hdeed⟩ := (DispatcherShift.aside hmove hspares).quiet
          refine .clearing (hsame.trans hnow) ?_
          rw [errand_concat, Occurrence.advance_of_none htaken hdeed, herrand]

theorem left_step (hstopped : m.dispatcher = .stopped) (hshutdown : m.shutdown = true)
    (hstep : DispatcherStep d m move m') (hreader : m'.now = time ∨ m'.reader = .stopped) :
    Cleaning mark time (past ++ [⟨m, move⟩]) m' := by
  cases hstep with
  | act hrest => cases hstopped.symm.trans hrest
  | take hidle => cases hstopped.symm.trans hidle
  | shift hshift =>
      cases hshift with
      | finish hrest => cases hstopped.symm.trans hrest
      | lose hrest => cases hstopped.symm.trans hrest
      | rise hresting => cases hstopped.symm.trans hresting
      | close hidle => cases hstopped.symm.trans hidle
      | leave => exact .left rfl hshutdown hreader
      | aside _ hspares =>
          exact .left (hspares.dispatcher.trans hstopped) (hspares.shutdown hshutdown) hreader

/-- Until the jobs are cleaned away the clock stands still, unless everybody leaves. -/
theorem step (h : Cleaning mark time past m) (htimely : Timely d start past m)
    (hmark : mark <+: past) (hharmless : move.Harmless)
    (hpunctual : Occurrence.punctual d ⟨m, move⟩ = true) (hmake : m.make d move = some m') :
    Cleaning mark time (past ++ [⟨m, move⟩]) m' := by
  have hstarted := htimely.told.parties.supervisor
  obtain ⟨hdispatcher, hworld⟩ := steps_of_make hstarted hmake
  have hstands {party : Party} (hurgent : m.urgent d party = true) : m'.now = m.now :=
    now_eq_of_urgent hworld hharmless hpunctual hurgent
  have hturn (hready : (m.turn d .stepwise .dispatcher).isSome) : m'.now = m.now :=
    hstands (urgent_of_turn hready (by decide))
  cases h with
  | waiting hnow hdue =>
      exact waiting_step hnow hdue hdispatcher (hturn hdue.ready)
  | clearing hnow herrand =>
      have hbusy : ¬ m.Free := by
        intro hfree
        have hidle := htimely.keeps.idle hfree
        rw [herrand] at hidle
        cases hidle
      have hready : (m.turn d .stepwise .dispatcher).isSome :=
        (carried_of_keeps htimely.keeps hbusy).2
      exact clearing_step htimely hmark hnow herrand hdispatcher (hturn hready)
  | @cleared before o after hsplit hprefix hdeed =>
      have hlonger : past ++ [⟨m, move⟩] = before ++ o :: (after ++ [⟨m, move⟩]) := by
        rw [hsplit, List.append_assoc, List.cons_append]
      exact .cleared hlonger hprefix hdeed
  | left hstopped hshutdown hreader =>
      refine left_step hstopped hshutdown hdispatcher ?_
      by_cases hthere : m.reader = .stopped
      · exact .inr ((step_of_make hstarted hharmless hmake).reader_stopped hthere)
      · have hsame := hstands (htimely.prompt.urgent hshutdown hthere)
        exact .inl (hsame.trans (hreader.resolve_right hthere))

end Cleaning

theorem LastInstall.after_clearing {past : List Occurrence} {id : UInt8} {job : Job}
    {handing : List Occurrence} {installing : Occurrence} {kept : List Occurrence}
    (h : LastInstall past id job handing installing kept) {before : List Occurrence}
    {o : Occurrence} {after : List Occurrence} (hsplit : past = before ++ o :: after)
    (hclear : o.deed? = some .clearJobs) : before ++ [o] <+: handing := by
  have hdiffers : installing ≠ o := by
    rintro rfl
    rw [Occurrence.deed?_of_deedOf? h.deed] at hclear
    cases hclear
  rcases List.append_eq_append_iff.1 (h.split.symm.trans hsplit) with
    ⟨between, -, hkept⟩ | ⟨between, hhanding, hrest⟩
  · cases between with
    | nil => exact absurd (List.cons.inj hkept).1 hdiffers
    | cons first between =>
        obtain ⟨-, hkept⟩ := List.cons.inj hkept
        exact absurd hclear (h.kept o (by simp [hkept])).1
  · cases between with
    | nil => exact absurd (List.cons.inj hrest).1.symm hdiffers
    | cons first between =>
        obtain ⟨rfl, -⟩ := List.cons.inj hrest
        exact ⟨between, by simp [hhanding]⟩

/-! ## Where a result comes from -/

def Occurrence.reads (o : Occurrence) : Bool :=
  match o.deedOf? .reader with
  | some (.receive _ _) => true
  | _ => false

theorem Occurrence.receive_of_reads {o : Occurrence} (h : o.reads = true) :
    ∃ capacity window, o.deedOf? .reader = some (.receive capacity window) := by
  unfold reads at h
  split at h
  · case _ capacity window hdeed => exact ⟨capacity, window, hdeed⟩
  · cases h

theorem Occurrence.deliver_of_delivered {o : Occurrence} {found : Found}
    (h : o.delivered = [found]) : o.deedOf? .reader = some (.deliver found) := by
  unfold delivered at h
  split at h
  · case _ other hdeed =>
      cases h
      exact hdeed
  · cases h

structure LastReading (past earlier : List Occurrence) (o : Occurrence)
    (since : List Occurrence) : Prop where
  split : past = earlier ++ o :: since
  reads : o.reads = true
  kept : ∀ later ∈ since, later.reads = false

/-- The job was looked up after these occurrences. -/
def LookedUpSince (model : Model) (mark past : List Occurrence) (frame : Bytes) (job : Job) :
    Prop :=
  ∃ before o after, LookUp model past frame job before o after ∧ mark <+: before

theorem LookedUpSince.concat {model : Model} {mark past : List Occurrence} {frame : Bytes}
    {job : Job} (h : LookedUpSince model mark past frame job) (o : Occurrence) :
    LookedUpSince model mark (past ++ [o]) frame job := by
  obtain ⟨before, looking, after, hlook, hmark⟩ := h
  refine ⟨before, looking, after ++ [o], ⟨?_, hlook.deed, hlook.heard, hlook.live,
    hlook.installed⟩, hmark⟩
  rw [hlook.split, List.append_assoc, List.cons_append]

/-- The job that the reader has in hand was looked up after these occurrences. -/
def Hearing.Since (model : Model) (mark past : List Occurrence) : Hearing → Prop
  | .matched frame job => LookedUpSince model mark past frame job
  | .passed frame job => LookedUpSince model mark past frame job
  | _ => True

theorem Hearing.Since.concat {model : Model} {mark past : List Occurrence} {h : Hearing}
    (hsince : h.Since model mark past) (o : Occurrence) : h.Since model mark (past ++ [o]) := by
  cases h with
  | matched | passed => exact LookedUpSince.concat hsince o
  | _ => trivial

theorem Hearing.since_ofReply (model : Model) (mark past : List Occurrence)
    (reply : Except LinkError Bytes) : (Hearing.ofReply model reply).Since model mark past := by
  cases reply with
  | error e => trivial
  | ok frame =>
      rw [ofReply]
      split <;> trivial

theorem Told.since_step {d : Daemon} {start : World} {mark past : List Occurrence} {m : Machine}
    {move : Move} (h : Told d start past m) (hmark : mark <+: past)
    (hsince : (hearing d.settings.model past).Since d.settings.model mark past) :
    (hearing d.settings.model (past ++ [⟨m, move⟩])).Since d.settings.model mark
      (past ++ [⟨m, move⟩]) := by
  have hheld := h.held
  rw [hearing_concat]
  cases hdeed : Occurrence.deedOf? ⟨m, move⟩ .reader with
  | none =>
      rw [Occurrence.hear_of_none hdeed]
      exact hsince.concat _
  | some action =>
      have hmay := h.parties.reader_may hdeed
      rw [Occurrence.hear_of_deed hdeed]
      cases action with
      | note | flush => exact hsince.concat _
      | receive capacity window => exact Hearing.since_ofReply _ _ _ _
      | lookUp id =>
          obtain ⟨frame, hheard, rfl⟩ := hmay
          rw [hheard] at hheld ⊢
          rw [Hearing.next]
          cases hanswer : Occurrence.answer ⟨m, move⟩ (.lookUp _) with
          | none => trivial
          | some job =>
              exact ⟨past, ⟨m, move⟩, [], ⟨rfl, hdeed, hheld, hanswer, h.live _ _ hanswer⟩, hmark⟩
      | screen nonce =>
          obtain ⟨frame, job, hmatched, rfl⟩ := hmay
          rw [hmatched] at hsince ⊢
          rw [Hearing.next]
          cases Occurrence.answer ⟨m, move⟩ (.screen _) with
          | true => exact LookedUpSince.concat hsince _
          | false => trivial
      | deliver found => trivial
      | _ => exact hmay.elim

/-! ## The whole run -/

/-- The result is of a job that was dispatched, and looked up, after these occurrences. -/
def DispatchedSince (model : Model) (mark past : List Occurrence) (found : Found) : Prop :=
  ∃ frame before looking after handing installing kept,
    found = model.foundIn frame found.job ∧ LookUp model past frame found.job before looking after ∧
      LastInstall before (model.slot (Response.echo frame)) found.job handing installing kept ∧
      mark <+: handing

theorem DispatchedSince.exists_deed {model : Model} {mark later : List Occurrence} {found : Found}
    (h : DispatchedSince model mark (mark ++ later) found) :
    ∃ o ∈ later, (o.deedOf? .dispatcher).isSome := by
  obtain ⟨frame, before, looking, after, handing, installing, kept, -, hlook, hlast, hmark⟩ := h
  obtain ⟨more, rfl⟩ := hmark
  have hlater := hlook.split
  rw [hlast.split, List.append_assoc, List.append_assoc] at hlater
  refine ⟨installing, ?_, by simp [hlast.deed]⟩
  rw [List.append_cancel_left hlater]
  simp

/-- Once a cleaning has been due in this sense, no result that is read later comes of a job that was
dispatched before. -/
def Daemon.Abandons (d : Daemon) (due : Machine → Prop) (past : List Occurrence) : Prop :=
  ∀ first c rest, past = first ++ c :: rest → due c.machine →
    ∀ before o after found, past = before ++ o :: after →
      o.deedOf? .reader = some (.deliver found) →
      ∀ earlier reading since, LastReading before earlier reading since →
        c.machine.now < reading.machine.now →
        DispatchedSince d.settings.model (first ++ [c]) before found

namespace Timely

variable {d : Daemon} {start : World} {past : List Occurrence} {m : Machine}

/-- Before the clock has moved on, the jobs that were live when a cleaning was due are gone, or the
reader is. -/
theorem cleaned (h : Timely d start past m) (hdue : m.CleaningDue) {moves : List Move}
    {later : List Occurrence} {last : Machine} (hharmless : ∀ move ∈ moves, move.Harmless)
    (hpunctual : ∀ o ∈ later, o.punctual d = true) (hrun : m.run d moves = some (later, last))
    (hlater : m.now < last.now) (hreader : last.reader ≠ .stopped) :
    ∃ before o after, past ++ later = before ++ o :: after ∧ past <+: before ∧
      o.deed? = some .clearJobs := by
  have hkept : Kept d start fun past' reached =>
      past <+: past' ∧ Cleaning past m.now past' reached := by
    intro _ _ _ _ htimely ⟨hmark, hcleaning⟩ hmove hon hmake
    exact ⟨hmark.trans (List.prefix_append _ _), hcleaning.step htimely hmark hmove hon hmake⟩
  have hdueNow : Cleaning past m.now past m := .waiting rfl hdue
  have hends := (run hkept h ⟨List.prefix_refl _, hdueNow⟩ hharmless hpunctual hrun).2
  cases hends with
  | waiting hnow => omega
  | clearing hnow => omega
  | cleared hsplit hmark hdeed => exact ⟨_, _, _, hsplit, hmark, hdeed⟩
  | left _ _ hgone =>
      rcases hgone with hnow | hstopped
      · omega
      · exact absurd hstopped hreader

theorem since_run (h : Timely d start past m) {mark : List Occurrence} (hmark : mark <+: past)
    (hsince : (hearing d.settings.model past).Since d.settings.model mark past)
    {moves : List Move} {later : List Occurrence} {last : Machine}
    (hharmless : ∀ move ∈ moves, move.Harmless) (hpunctual : ∀ o ∈ later, o.punctual d = true)
    (hrun : m.run d moves = some (later, last)) :
    (hearing d.settings.model (past ++ later)).Since d.settings.model mark (past ++ later) := by
  have hkept : Kept d start fun past' _ =>
      mark <+: past' ∧ (hearing d.settings.model past').Since d.settings.model mark past' := by
    intro _ _ _ _ htimely ⟨hmark, hsince⟩ _ _ _
    exact ⟨hmark.trans (List.prefix_append _ _), htimely.told.since_step hmark hsince⟩
  exact (run hkept h ⟨hmark, hsince⟩ hharmless hpunctual hrun).2

theorem looked_up (h : Timely d start past m) {reading : Occurrence} {capacity window : Nat}
    (hdeed : reading.deedOf? .reader = some (.receive capacity window)) {moves : List Move}
    {since : List Occurrence} {last : Machine} (hharmless : ∀ move ∈ moves, move.Harmless)
    (hpunctual : ∀ o ∈ reading :: since, o.punctual d = true)
    (hrun : m.run d moves = some (reading :: since, last)) :
    (hearing d.settings.model (past ++ reading :: since)).Since d.settings.model
      (past ++ [reading]) (past ++ reading :: since) := by
  cases moves with
  | nil => cases hrun
  | cons move rest =>
      obtain ⟨m', tail, hmake, hrest, heq⟩ := run_cons_eq_some hrun
      obtain ⟨rfl, rfl⟩ := List.cons.inj heq
      have hread : (hearing d.settings.model (past ++ [⟨m, move⟩])).Since d.settings.model
          (past ++ [⟨m, move⟩]) (past ++ [⟨m, move⟩]) := by
        rw [hearing_concat, Occurrence.hear_of_deed hdeed]
        exact Hearing.since_ofReply _ _ _ _
      have hends := (h.step (hharmless move (by simp)) hmake).since_run (List.prefix_refl _) hread
        (fun move hmem => hharmless move (by simp [hmem]))
        (fun o hmem => hpunctual o (by simp [hmem])) hrest
      rwa [List.append_assoc, List.singleton_append] at hends

theorem later_of_now_lt (h : Timely d start [] m) {moves : List Move} {last : Machine}
    (hharmless : ∀ move ∈ moves, move.Harmless) (hpunctual : ∀ o ∈ past, o.punctual d = true)
    (hrun : m.run d moves = some (past, last)) {first rest earlier after : List Occurrence}
    {c o : Occurrence} (hsplit : past = first ++ c :: rest)
    (hother : past = earlier ++ o :: after) (hlt : c.machine.now < o.machine.now) :
    ∃ between, earlier = first ++ c :: between := by
  rcases List.append_eq_append_iff.1 (hsplit.symm.trans hother) with
    ⟨between, hearlier, hrest⟩ | ⟨between, hfirst, hrest⟩
  · cases between with
    | nil =>
        obtain ⟨rfl, -⟩ := List.cons.inj hrest
        omega
    | cons next between =>
        obtain ⟨rfl, -⟩ := List.cons.inj hrest
        exact ⟨between, hearlier⟩
  · cases between with
    | nil =>
        obtain ⟨rfl, -⟩ := List.cons.inj hrest
        omega
    | cons next between =>
        obtain ⟨rfl, -⟩ := List.cons.inj hrest
        subst hsplit hfirst
        obtain ⟨before, _, rfl, hbefore, -⟩ := runs_of_split hrun
        obtain ⟨sooner, later, rfl, hsooner, hlater⟩ := runs_of_split hbefore
        have htimely := h.reaches (fun move hmem => hharmless move (by simp [hmem])) hsooner
        have hle := htimely.now_le (fun move hmem => hharmless move (by simp [hmem]))
          (fun o hmem => hpunctual o (by simp at hmem ⊢; tauto)) hlater
        omega

/-- What was read after a cleaning had been due is the result of a job that was dispatched after
it. -/
theorem dispatchedSince (h : Timely d start past m) (hdue : m.CleaningDue)
    {c reading o : Occurrence} {between since : List Occurrence} {found : Found}
    {movesDue movesRead : List Move} (hharmless : ∀ move ∈ movesDue ++ movesRead, move.Harmless)
    (hpunctual : ∀ x ∈ c :: between ++ reading :: since, x.punctual d = true)
    (hrunDue : m.run d movesDue = some (c :: between, reading.machine))
    (hrunRead : reading.machine.run d movesRead = some (reading :: since, o.machine))
    (hlater : m.now < reading.machine.now) (hreads : reading.reads = true)
    (hdeed : o.deedOf? .reader = some (.deliver found)) :
    DispatchedSince d.settings.model (past ++ [c]) (past ++ c :: between ++ reading :: since)
      found := by
  have hmovesDue : ∀ move ∈ movesDue, move.Harmless := fun move hmem =>
    hharmless move (List.mem_append_left _ hmem)
  have hmovesRead : ∀ move ∈ movesRead, move.Harmless := fun move hmem =>
    hharmless move (List.mem_append_right _ hmem)
  have hpastDue : ∀ x ∈ c :: between, x.punctual d = true := fun x hmem =>
    hpunctual x (List.mem_append_left _ hmem)
  have hpastRead : ∀ x ∈ reading :: since, x.punctual d = true := fun x hmem =>
    hpunctual x (List.mem_append_right _ hmem)
  obtain ⟨capacity, window, hreceive⟩ := Occurrence.receive_of_reads hreads
  have hthere : reading.machine.reader ≠ .stopped := by
    intro hstopped
    have hnext := Occurrence.next?_of_deedOf? hreceive
    simp [next?, hstopped] at hnext
  -- Before the reading the jobs were cleaned away, and after it the result's job was looked up.
  obtain ⟨cut, clearing, tail, hcut, hmark, hclear⟩ :=
    h.cleaned hdue hmovesDue hpastDue hrunDue hlater hthere
  have hread := h.reaches hmovesDue hrunDue
  have hsince := hread.looked_up hreceive hmovesRead hpastRead hrunRead
  have hdelivered := hread.reaches hmovesRead hrunRead
  obtain ⟨frame, job, hpassed, rfl⟩ := hdelivered.told.parties.reader_may hdeed
  rw [hpassed] at hsince
  obtain ⟨_, looking, after, hlook, more, rfl⟩ := hsince
  obtain ⟨handing, installing, kept, hlast⟩ := hlook.installed
  refine ⟨frame, _, looking, after, handing, installing, kept, rfl, hlook, hlast, ?_⟩
  -- So the job was made live after the cleaning, and all the more after it was due.
  have hcleared : past ++ c :: between ++ [reading] ++ more =
      cut ++ clearing :: (tail ++ reading :: more) := by
    rw [hcut]
    simp
  have hafter := hlast.after_clearing hcleared hclear
  refine List.prefix_of_prefix_length_le ?_ ⟨installing :: kept, hlast.split.symm⟩ ?_
  · exact ⟨between ++ reading :: more, by simp⟩
  · have hshort := hmark.length_le
    have hlong := hafter.length_le
    simp at hshort hlong ⊢
    omega

end Timely

theorem Machine.Unlaunched.timely {m : Machine} (h : m.Unlaunched) (d : Daemon)
    (interval : Float) : Timely d m.world [] (m.launch d interval) := by
  have hfollowed := h.followed d interval
  obtain ⟨_, _, _, -, -, -, hlaunch⟩ := m.launch_eq d interval h.dispatcher
  rw [hlaunch] at hfollowed ⊢
  exact ⟨hfollowed, trivial⟩

/-- If everything that can happen at an instant happens before time passes, and a reading takes place
when it is answered, whatever is abandoned while the dispatcher is ready for it is not reported
later. While the dispatcher follows a work or rests after it, a cleaning waits. -/
theorem Machine.launch_abandons (d : Daemon) (interval : Float) {m₀ m : Machine}
    (hunlaunched : m₀.Unlaunched) {moves : List Move} {past : List Occurrence}
    (hharmless : ∀ move ∈ moves, move.Harmless)
    (hrun : (m₀.launch d interval).run d moves = some (past, m))
    (hpunctual : ∀ o ∈ past, o.punctual d = true) :
    d.Abandons CleaningDue past ∧ Withholds past := by
  refine ⟨?_, launch_withholds d interval hunlaunched hharmless hrun⟩
  intro first c rest hsplit hdue before o after found hdelivery hdeed earlier reading since hread
    hlater
  have hbegun := hunlaunched.timely d interval
  obtain ⟨rfl, hreads, -⟩ := hread
  have hreading : past = earlier ++ reading :: (since ++ o :: after) := by
    rw [hdelivery, List.append_assoc, List.cons_append]
  obtain ⟨between, rfl⟩ :=
    hbegun.later_of_now_lt hharmless hpunctual hrun hsplit hreading hlater
  -- The run falls into what came before the cleaning was due, before the reading, and before the
  -- delivery.
  obtain ⟨movesTo, movesOn, rfl, hrunTo, hrunOn⟩ := runs_of_split (hreading ▸ hrun)
  obtain ⟨movesUp, movesDue, rfl, hrunUp, hrunDue⟩ := runs_of_split hrunTo
  have hrunOn : reading.machine.run d movesOn = some ((reading :: since) ++ o :: after, m) :=
    hrunOn
  obtain ⟨movesRead, movesLast, rfl, hrunRead, -⟩ := runs_of_split hrunOn
  have hdueTimely := hbegun.reaches (fun move hmem => hharmless move (by simp [hmem])) hrunUp
  refine hdueTimely.dispatchedSince hdue ?_ ?_ hrunDue hrunRead hlater hreads hdeed
  · exact fun move hmem => hharmless move (by simp at hmem ⊢; tauto)
  · exact fun x hmem => hpunctual x (by rw [hdelivery]; simp at hmem ⊢; tauto)

namespace Machine

/-- Chips that have said nothing yet, and somebody to tell. -/
def belated : Machine :=
  { world := { World.fresh .bm1370 with consumer := .present }
    supervisor := .standing }

theorem belated_unlaunched : belated.Unlaunched :=
  ⟨rfl, nofun⟩

def echoing (echo checksum : UInt8) : Bytes :=
  [0xaa, 0x55, 0x78, 0x56, 0x34, 0x12, 0x00, echo, 0x00, 0x03, checksum]

def report (frame : Bytes) : Move :=
  .meet (.change fun w => { w with line.replies := w.line.replies ++ [.bytes frame] })

theorem report_harmless (frame : Bytes) : (report frame).Harmless :=
  fun _ => ⟨⟨rfl, rfl, rfl, id, Nat.le_refl _⟩, rfl⟩

/-- A work is dispatched, and the manager looks at the settings. The reader waits for input. -/
def settingOut : List Move :=
  .meet (.message (.work { ntime := 1 })) :: List.replicate 8 (.turn .dispatcher) ++
    List.replicate 6 (.turn .manager)

/-- The chips report in the middle of the reader's wait, 1200 milliseconds after the manager has
looked at the settings again. -/
def reported (frame : Bytes) : List Move :=
  List.replicate 4 (.turn .manager) ++ [.elapse 1200, report frame] ++
    List.replicate 7 (.turn .reader)

/-- A cleaning comes while the dispatcher rests, and still waits when the chips report. -/
def hindered : List Move :=
  settingOut ++ [.meet (.message .cleanJobs), .elapse 1800] ++ reported (echoing 0x35 0x09)

/-- A cleaning comes when the dispatcher has rested, and a work after it. -/
def unhindered : List Move :=
  settingOut ++ [.elapse 500, .turn .dispatcher] ++
    [.meet (.message .cleanJobs), .meet (.message (.work { ntime := 2 }))] ++
    List.replicate 13 (.turn .dispatcher) ++
    [.elapse 500, .turn .dispatcher, .elapse 800] ++ reported (echoing 0x65 0x0d)

theorem launch_abandons_of_unhindered :
    ∃ past m, (belated.launch watchful 500).run watchful unhindered = some (past, m) ∧
      watchful.Abandons CleaningDue past ∧ Withholds past ∧
      (∃ c ∈ past, c.machine.CleaningDue ∧ c.machine.now = 500) ∧
      m.world.found = #[(3000, ⟨{ ntime := 2 }, 48, 0x12345678, 0x6000, { ntime := 2 }⟩)] := by
  have hharmless : ∀ move ∈ unhindered, move.Harmless := by
    simpa [unhindered, settingOut, reported, Move.Harmless] using
      report_harmless (echoing 0x65 0x0d)
  have hends : ((belated.launch watchful 500).run watchful unhindered).map
      (fun ran => (ran.1.all (Occurrence.punctual watchful),
        ran.1.any fun c => c.machine.CleaningDue ∧ c.machine.now = 500, ran.2.world.found)) = some (true, true,
          #[(3000, ⟨{ ntime := 2 }, 48, 0x12345678, 0x6000, { ntime := 2 }⟩)]) := by
    decide +kernel
  obtain ⟨⟨past, m⟩, hrun, hend⟩ := Option.map_eq_some_iff.1 hends
  simp only [Prod.mk.injEq, List.all_eq_true, List.any_eq_true] at hend
  obtain ⟨hpunctual, ⟨c, hmem, hc⟩, hfound⟩ := hend
  obtain ⟨habandons, hwithholds⟩ :=
    launch_abandons watchful 500 belated_unlaunched hharmless hrun hpunctual
  exact ⟨past, m, hrun, habandons, hwithholds, ⟨c, hmem, of_decide_eq_true hc⟩, hfound⟩

theorem eq_take_append_cons {past : List Occurrence} {i : Nat} {o : Occurrence}
    (h : past[i]? = some o) : past = past.take i ++ o :: past.drop (i + 1) := by
  obtain ⟨hlt, rfl⟩ := List.getElem?_eq_some_iff.1 h
  rw [← List.drop_eq_getElem_cons hlt, List.take_append_drop]

/-- A cleaning that comes while the dispatcher rests after a job waits with it. The chips report on
that job later, and the result is delivered. -/
theorem rest_delays_cleaning :
    ∃ past m, (belated.launch watchful 20000).run watchful hindered = some (past, m) ∧
      belated.Unlaunched ∧ (∀ move ∈ hindered, move.Harmless) ∧
      (∀ o ∈ past, o.punctual watchful = true) ∧ ¬ watchful.Abandons CleaningAhead past := by
  have hharmless : ∀ move ∈ hindered, move.Harmless := by
    simpa [hindered, settingOut, reported, Move.Harmless] using report_harmless (echoing 0x35 0x09)
  -- The cleaning is ahead from the seventeenth occurrence on, the only reading is the twenty-fourth,
  -- and the last occurrence delivers what was read.
  have hends : ((belated.launch watchful 20000).run watchful hindered).map
      (fun ran => ran.1.all (Occurrence.punctual watchful) &&
        ran.1[16]?.any (fun c => c.machine.inbox = [.cleanJobs] ∧ c.machine.now = 0) &&
        ran.1[23]?.any (fun reading => reading.reads ∧ reading.machine.now = 3000) &&
        ran.1[29]?.any (fun o => o.delivered =
          [⟨{ ntime := 1 }, 24, 0x12345678, 0x6000, { ntime := 1 }⟩]) &&
        (ran.1.drop 24).all (fun o => o.reads = false) &&
        (ran.1.drop 17).all fun o => (o.deedOf? .dispatcher).isNone) = some true := by
    decide +kernel
  obtain ⟨⟨past, m⟩, hrun, hend⟩ := Option.map_eq_some_iff.1 hends
  simp only [Bool.and_eq_true, Option.any_eq_true, decide_eq_true_eq, List.all_eq_true] at hend
  obtain ⟨⟨⟨⟨⟨hpunctual, c, hc, hinbox, hnow⟩, reading, hreading, hreads, hlater⟩, o, ho,
    hdelivered⟩, hquiet⟩, hidle⟩ := hend
  refine ⟨past, m, hrun, belated_unlaunched, hharmless, hpunctual, fun h => ?_⟩
  have hsplit := eq_take_append_cons hc
  have hdelivery := eq_take_append_cons ho
  have hdue : (past.take 29)[16]? = some c := by rwa [List.getElem?_take_of_lt (by decide)]
  have hread : (past.take 29)[23]? = some reading := by
    rwa [List.getElem?_take_of_lt (by decide)]
  have hlast : LastReading (past.take 29) _ reading _ :=
    ⟨eq_take_append_cons hread, hreads, fun later hmem => by
      rw [List.drop_take] at hmem
      exact hquiet later (List.mem_of_mem_take hmem)⟩
  have hsince := h _ c _ hsplit (by simp [CleaningAhead, hinbox]) _ o _ _ hdelivery
    (Occurrence.deliver_of_delivered hdelivered) _ reading _ hlast (by omega)
  have hmark : past.take 29 = (past.take 16 ++ [c]) ++ (past.take 29).drop 17 := by
    have hcut := eq_take_append_cons hdue
    rwa [List.take_take, List.append_cons] at hcut
  rw [hmark] at hsince
  obtain ⟨installing, hmem, hdeed⟩ := hsince.exists_deed
  rw [List.drop_take] at hmem
  rw [Option.isNone_iff_eq_none.1 (hidle installing (List.mem_of_mem_take hmem))] at hdeed
  cases hdeed

end Machine

end ChipChain
