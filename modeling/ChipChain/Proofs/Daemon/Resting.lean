import ChipChain.Proofs.Daemon.Handling

/-!
# Resting after a work

A dispatcher that has taken a work follows it, then rests, and only then takes the next message
(`Rested`). So a cleaning that comes meanwhile waits until the rest is over
(`Machine.launch_withholds`).
-/

namespace ChipChain

open Machine

/-- The dispatcher takes no message before a time: it will rest after the work that it follows, or
rests. How far that work has come is up to `P`. -/
def Rested (P : Errand → Prop) (ready rest now : Nat) (taken : List WorkMessage) (e : Errand) :
    DispatcherTask → Prop
  | .idle _ => ready ≤ now
  | .resting wake => ready ≤ wake
  | .handling _ => ready ≤ now ∨
      ready ≤ now + rest ∧ P e ∧ ∃ job, taken.getLast? = some (.work job)
  | .stopped => True

namespace Rested

variable {P : Errand → Prop} {ready rest now now' : Nat} {taken : List WorkMessage} {e : Errand}

theorem later {task : DispatcherTask} (h : Rested P ready rest now taken e task)
    (hnow : now ≤ now') : Rested P ready rest now' taken e task := by
  cases task with
  | idle since => exact Nat.le_trans h hnow
  | handling a => exact h.imp (·.trans hnow) fun ⟨hready, hwork⟩ => ⟨by omega, hwork⟩
  | _ => exact h

/-- The rest that is still to come has to do with a work only. -/
theorem ready_of_not {a : Activity ChainError Bool}
    (h : Rested P ready rest now taken e (.handling a))
    (hnot : ¬ (P e ∧ ∃ job, taken.getLast? = some (.work job))) : ready ≤ now :=
  h.resolve_right fun ⟨_, hwork⟩ => hnot hwork

end Rested

namespace Machine

section

variable {d : Daemon} {m m' : Machine} {move : Move} {P : Errand → Prop} {ready : Nat}
  {taken : List WorkMessage} {e : Errand}

theorem DispatcherStep.rested
    (hP : ∀ {e action} (answer), P e → e.May d.settings.model action → P (e.next action answer))
    (h : DispatcherStep d m move m') (hnow : m.now ≤ m'.now)
    (hkeeps : DispatcherKeeps d.settings.model taken e m.now m.dispatcher)
    (hrested : Rested P ready m.jobRest m.now taken e m.dispatcher) :
    Rested P ready m.jobRest m'.now (taken ++ (Occurrence.taken? ⟨m, move⟩).toList)
      (Occurrence.advance e ⟨m, move⟩) m'.dispatcher := by
  cases h with
  | @act wake action next hrest hwake =>
      obtain ⟨htaken, hdeed⟩ := Occurrence.acting hrest
      rw [hrest] at hkeeps hrested
      obtain ⟨-, message, -, -, hmay, -⟩ := hkeeps
      rw [Occurrence.advance_of_deed htaken hdeed, htaken, Option.toList_none, List.append_nil]
      rcases hrested with hready | ⟨hready, hdue, hwork⟩
      · exact .inl (hready.trans hnow)
      · exact .inr ⟨hready.trans (Nat.add_le_add_right hnow _), hP _ hdue hmay, hwork⟩
  | @take since message inbox hidle hinbox =>
      rw [hidle] at hrested
      exact .inl (Nat.le_trans hrested hnow)
  | shift hshift =>
      obtain ⟨htaken, hdeed⟩ := hshift.quiet
      rw [Occurrence.advance_of_none htaken hdeed, htaken, Option.toList_none, List.append_nil]
      cases hshift with
      | @finish wake rests hrest =>
          rw [hrest] at hkeeps hrested
          obtain ⟨-, message, hmessage, -, -, hrests⟩ := hkeeps
          change rests = message.job?.isSome at hrests
          cases message with
          | work job =>
              subst hrests
              show ready ≤ m.now + m.jobRest
              rcases hrested with hready | ⟨hready, -⟩ <;> omega
          | cleanJobs =>
              subst hrests
              refine hrested.ready_of_not ?_
              rintro ⟨-, job, hwork⟩
              rw [hmessage] at hwork
              cases hwork
      | rise hresting hwake =>
          rw [hresting] at hrested
          exact Nat.le_trans hrested hwake
      | aside _ hspares =>
          rw [hspares.dispatcher]
          exact hrested.later hnow
      | _ => trivial

end

end Machine

/-! ## What has to wait -/

/-- When the dispatcher will have rested, if it follows a work, the last of these messages, or rests
after one. -/
def Machine.restOver? (m : Machine) (taken : List WorkMessage) : Option Nat :=
  match m.dispatcher, taken.getLast? with
  | .resting wake, _ => some wake
  | .handling _, some (.work _) => some (m.now + m.jobRest)
  | _, _ => none

theorem Rested.of_restOver? {m : Machine} {taken : List WorkMessage} {ready : Nat} (e : Errand)
    (h : m.restOver? taken = some ready) :
    Rested (fun _ => True) ready m.jobRest m.now taken e m.dispatcher := by
  cases hdispatcher : m.dispatcher with
  | idle | stopped => simp [restOver?, hdispatcher] at h
  | resting wake =>
      have hwake : wake = ready := by simpa [restOver?, hdispatcher] using h
      exact hwake.ge
  | handling a =>
      cases hlast : taken.getLast? with
      | none => simp [restOver?, hdispatcher, hlast] at h
      | some message =>
          cases message with
          | cleanJobs => simp [restOver?, hdispatcher, hlast] at h
          | work job =>
              have hready : m.now + m.jobRest = ready := by
                simpa [restOver?, hdispatcher, hlast] using h
              exact .inr ⟨hready.ge, trivial, job, hlast⟩

/-- While the dispatcher follows a work or rests after one, no message is taken and no jobs are
cleaned away. -/
def Withholds (past : List Occurrence) : Prop :=
  ∀ first c rest, past = first ++ c :: rest →
    ∀ ready, c.machine.restOver? (messages first) = some ready → ∀ o ∈ rest,
      o.taken?.isSome ∨ o.deed? = some .clearJobs → ready ≤ o.machine.now

/-- What is taken, and what cleans, finds the rest over. -/
theorem Followed.rest_over {d : Daemon} {start : World} {past : List Occurrence} {o : Occurrence}
    (h : Followed d start past o.machine) {ready : Nat}
    (hrested : Rested (fun _ => True) ready o.machine.jobRest o.machine.now (messages past)
      (errand past) o.machine.dispatcher)
    (hopens : o.taken?.isSome ∨ o.deed? = some .clearJobs) : ready ≤ o.machine.now := by
  rcases hopens with htaken | hclear
  · obtain ⟨message, hmessage⟩ := Option.isSome_iff_exists.1 htaken
    obtain ⟨⟨since, hidle⟩, -⟩ := Occurrence.idle_of_taken hmessage
    rw [hidle] at hrested
    exact hrested
  · cases h.told.parties.deed hclear with
    | reader _ _ hmay => exact hmay.elim
    | manager _ _ haside => exact haside.elim
    | dispatcher _ _ hmay =>
        -- A cleaning comes of the last message, and that one is no work.
        have hclearing : errand past = .clearing := hmay
        have hkeeps := h.keeps
        obtain ⟨a, hhandling⟩ := hkeeps.handling (by simp [hclearing])
        rw [hhandling] at hkeeps hrested
        obtain ⟨-, message, hmessage, hserves, -⟩ := hkeeps
        rw [hclearing] at hserves
        refine hrested.ready_of_not ?_
        rintro ⟨-, job, hwork⟩
        have hmessage' : message = .cleanJobs := hserves
        rw [hmessage, hmessage'] at hwork
        cases hwork

theorem Followed.rested_run {d : Daemon} {start : World} {past : List Occurrence} {m last : Machine}
    (h : Followed d start past m) {ready : Nat}
    (hrested : Rested (fun _ => True) ready m.jobRest m.now (messages past) (errand past)
      m.dispatcher) {moves : List Move} {later : List Occurrence}
    (hharmless : ∀ move ∈ moves, move.Harmless) (hrun : m.run d moves = some (later, last)) :
    Rested (fun _ => True) ready last.jobRest last.now (messages (past ++ later))
      (errand (past ++ later)) last.dispatcher := by
  have hboth : Followed d start (past ++ later) last ∧
      Rested (fun _ => True) ready last.jobRest last.now (messages (past ++ later))
        (errand (past ++ later)) last.dispatcher := by
    refine run_keeps (P := fun past m => Followed d start past m ∧
      Rested (fun _ => True) ready m.jobRest m.now (messages past) (errand past) m.dispatcher)
      ?_ ⟨h, hrested⟩ (forall_move_of_run hharmless hrun) hrun
    intro past m move m' ⟨hfollowed, hrested⟩ hmove hmake
    have hstarted := hfollowed.told.parties.supervisor
    have hnow := (step_of_make hstarted hmove hmake).now_le
    have hstep := (steps_of_make hstarted hmake).1
    refine ⟨hfollowed.step hmove hmake, ?_⟩
    rw [messages_concat, errand_concat, hstep.jobRest]
    exact hstep.rested (fun _ _ _ => trivial) hnow hfollowed.keeps hrested
  exact hboth.2

theorem Machine.launch_withholds (d : Daemon) (interval : Float) {m₀ m : Machine}
    (hunlaunched : m₀.Unlaunched) {moves : List Move} {past : List Occurrence}
    (hharmless : ∀ move ∈ moves, move.Harmless)
    (hrun : (m₀.launch d interval).run d moves = some (past, m)) : Withholds past := by
  rintro first c rest rfl ready hready o hmem hopens
  obtain ⟨before, after, rfl⟩ := List.append_of_mem hmem
  -- The run falls into what came before `c` and what came between `c` and `o`.
  obtain ⟨movesUp, movesOn, rfl, hrunUp, hrunOn⟩ := runs_of_split hrun
  rw [← List.cons_append] at hrunOn
  obtain ⟨movesTo, movesLast, rfl, hrunTo⟩ := run_of_split hrunOn
  have hup := (hunlaunched.followed d interval).run
    (fun move hmem => hharmless move (by simp [hmem])) hrunUp
  have hmovesTo : ∀ move ∈ movesTo, move.Harmless := fun move hmem =>
    hharmless move (by simp [hmem])
  have hrested := hup.rested_run (.of_restOver? (errand first) hready) hmovesTo hrunTo
  exact (hup.run hmovesTo hrunTo).rest_over hrested hopens

end ChipChain
