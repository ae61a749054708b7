import ChipChain.Proofs.Daemon.Failures
import ChipChain.Proofs.Daemon.Interleaving
import ChipChain.Proofs.Daemon.Turns

/-!
# One message after the other

The dispatcher takes a message when it has nothing to do, and follows it to its
end without ever waiting (`DispatcherKeeps`). It can neither leave nor be held up
on the way, and after so many turns it is free again (`Machine.settles_free`).
-/

namespace ChipChain

open Machine Routine

def messages (past : List Occurrence) : List WorkMessage :=
  past.filterMap Occurrence.taken?

theorem messages_concat (past : List Occurrence) (o : Occurrence) :
    messages (past ++ [o]) = messages past ++ o.taken?.toList := by
  rw [messages, List.filterMap_append]
  cases htaken : o.taken? <;> simp [messages, htaken]

theorem Errand.May.instant {model : Model} {e : Errand} {action : Action}
    (h : e.May model action) (w : World) : (w.perform action).2.1 = 0 := by
  cases action with
  | note | countLive | drawId | install | transmit | clearJobs => rfl
  | _ => exact h.elim

namespace Occurrence

/-- No sending fails here. -/
def granted (o : Occurrence) : Bool :=
  match o.deed? with
  | some (.transmit frame) => Except.isOk (o.answer (.transmit frame))
  | _ => true

theorem granted_of_deed {o : Occurrence} {action : Action} (h : o.granted = true)
    (hdeed : o.deed? = some action) : Granted action (o.answer action) := by
  rw [granted, hdeed] at h
  cases action with
  | transmit frame => exact h
  | _ => trivial

end Occurrence

/-! ## What the dispatcher has in hand -/

/-- What is left to do comes of this message. -/
def Errand.Serves (message : WorkMessage) : Errand → Prop
  | .idle => True
  | .holding job => message = .work job
  | .drawn job _ => message = .work job
  | .installed job _ => message = .work job
  | .clearing => message = .cleanJobs

theorem Errand.serves_ofMessage (message : WorkMessage) :
    (Errand.ofMessage message).Serves message := by
  cases message <;> rfl

theorem Errand.Serves.next {model : Model} {message : WorkMessage} {e : Errand} {action : Action}
    (h : e.Serves message) (hmay : e.May model action) (answer : action.Answer) :
    (e.next action answer).Serves message := by
  cases action with
  | note | countLive => exact h
  | transmit | clearJobs => trivial
  | drawId =>
      obtain ⟨job, rfl⟩ := hmay
      exact h
  | install id job =>
      have hdrawn : e = .drawn job id := hmay
      subst hdrawn
      exact h
  | _ => exact hmay.elim

/-- The dispatcher is on its way with the message that it took last, and can go on at once; or it
has nothing left to do. -/
def DispatcherKeeps (model : Model) (taken : List WorkMessage) (e : Errand) (now : Nat) :
    DispatcherTask → Prop
  | .handling a => a.wake ≤ now ∧ ∃ message, taken.getLast? = some message ∧ e.Serves message ∧
      a.rest.Obeys model.dispatching (Errand.Ends message) e
  | _ => e = .idle

def DispatcherBrief (limit : Nat) : DispatcherTask → Prop
  | .handling a => a.rest.Brief limit
  | _ => True

/-- Whatever the dispatcher has in hand fails only if a sending does. -/
def DispatcherSure : DispatcherTask → Prop
  | .handling a => a.rest.Sure
  | _ => True

namespace DispatcherKeeps

variable {model : Model} {taken : List WorkMessage} {e : Errand} {now : Nat}
  {task : DispatcherTask}

theorem later (h : DispatcherKeeps model taken e now task) {now' : Nat} (hnow : now ≤ now') :
    DispatcherKeeps model taken e now' task := by
  cases task with
  | handling a => exact ⟨h.1.trans hnow, h.2⟩
  | _ => exact h

theorem handling (h : DispatcherKeeps model taken e now task) (hsome : e ≠ .idle) :
    ∃ a, task = .handling a := by
  cases task with
  | handling a => exact ⟨a, rfl⟩
  | _ => exact absurd h hsome

theorem idle (h : DispatcherKeeps model taken e now task) (hfree : ∀ a, task ≠ .handling a) :
    e = .idle := by
  by_contra hsome
  obtain ⟨a, ha⟩ := h.handling hsome
  exact hfree a ha

end DispatcherKeeps

theorem Occurrence.idle_of_taken {o : Occurrence} {message : WorkMessage}
    (h : o.taken? = some message) :
    (∃ since, o.machine.dispatcher = .idle since) ∧ o.deedOf? .dispatcher = none := by
  obtain ⟨m, move⟩ := o
  unfold taken? at h
  split at h
  · case _ hmove =>
    change move = .turn .dispatcher at hmove
    subst hmove
    change m.message? = some message at h
    rw [deedOf?_turn]
    unfold message? at h
    split at h
    · case _ since hidle => exact ⟨⟨since, hidle⟩, by simp [next?, hidle]⟩
    · cases h
  · cases h

namespace Machine

def Free (m : Machine) : Prop :=
  ∀ a, m.dispatcher ≠ .handling a

def Move.isDispatching : Move → Bool
  | .turn .dispatcher => true
  | _ => false

namespace DispatcherStep

variable {d : Daemon} {m m' : Machine} {move : Move} {taken : List WorkMessage} {e : Errand}

theorem keeps (h : DispatcherStep d m move m') (hnow : m.now ≤ m'.now)
    (hkeeps : DispatcherKeeps d.settings.model taken e m.now m.dispatcher) :
    DispatcherKeeps d.settings.model (taken ++ (Occurrence.taken? ⟨m, move⟩).toList)
      (Occurrence.advance e ⟨m, move⟩) m'.now m'.dispatcher := by
  cases h with
  | @act wake action next hrest hwake =>
      rw [hrest] at hkeeps
      obtain ⟨-, message, hlast, hserves, hmay, hobeys⟩ := hkeeps
      obtain ⟨htaken, hdeed⟩ := Occurrence.acting hrest
      rw [Occurrence.advance_of_deed htaken hdeed, htaken, Option.toList_none, List.append_nil]
      refine ⟨?_, message, hlast, hserves.next hmay _, hobeys _⟩
      show (m.world.perform action).2.2.clock + (m.world.perform action).2.1 ≤ _
      rw [Errand.May.instant hmay]
      exact Nat.le_refl _
  | @take since message inbox hidle hinbox =>
      have htaken := Occurrence.taking hidle hinbox
      rw [Occurrence.advance_of_taken htaken, htaken]
      exact ⟨Nat.le_refl _, message, List.getLast?_concat, Errand.serves_ofMessage message,
        d.handle_obeys message⟩
  | shift hshift =>
      obtain ⟨htaken, hdeed⟩ := hshift.quiet
      rw [Occurrence.advance_of_none htaken hdeed, htaken, Option.toList_none, List.append_nil]
      cases hshift with
      | @finish wake rests hrest =>
          rw [hrest] at hkeeps
          obtain ⟨-, message, -, -, hidle, -⟩ := hkeeps
          cases rests <;> exact hidle
      | lose hrest =>
          rw [hrest] at hkeeps
          obtain ⟨-, message, -, -, hidle, -⟩ := hkeeps
          exact hidle
      | rise hresting =>
          rw [hresting] at hkeeps
          exact hkeeps
      | close hidle =>
          rw [hidle] at hkeeps
          exact hkeeps
      | leave hfree => exact hkeeps.idle hfree
      | aside _ hspares =>
          rw [hspares.dispatcher]
          exact hkeeps.later hnow

theorem sure (h : DispatcherStep d m move m') (hgranted : Occurrence.granted ⟨m, move⟩ = true)
    (hsure : DispatcherSure m.dispatcher) : DispatcherSure m'.dispatcher := by
  cases h with
  | @act wake action next hrest =>
      have hdeed : Occurrence.deed? ⟨m, .turn .dispatcher⟩ = some action := by
        simp [Occurrence.deed?, next?, hrest, Routine.head?]
      rw [hrest] at hsure
      exact hsure _ (Occurrence.granted_of_deed hgranted hdeed)
  | @take since message => exact d.handle_sure message
  | shift hshift =>
      cases hshift with
      | @finish wake rests => cases rests <;> trivial
      | aside _ hspares => rwa [hspares.dispatcher]
      | _ => trivial

theorem brief (h : DispatcherStep d m move m')
    (hbrief : DispatcherBrief Daemon.handlingLimit m.dispatcher) :
    DispatcherBrief Daemon.handlingLimit m'.dispatcher := by
  cases h with
  | act hrest =>
      rw [hrest] at hbrief
      exact Brief.mono (hbrief _) 1
  | @take since message => exact d.handle_brief message
  | shift hshift =>
      cases hshift with
      | @finish wake rests => cases rests <;> trivial
      | aside _ hspares => rwa [hspares.dispatcher]
      | _ => trivial

/-- With a message in hand, a turn of the dispatcher brings it one action closer to its end, or
ends it. -/
theorem nears (h : DispatcherStep d m move m') {a : Activity ChainError Bool}
    (hhandling : m.dispatcher = .handling a) {limit : Nat} (hbrief : a.rest.Brief limit) :
    m'.Free ∨ ∃ a' left, m'.dispatcher = .handling a' ∧ a'.rest.Brief left ∧ left ≤ limit ∧
      (move.isDispatching = true → left < limit) := by
  cases h with
  | act hrest =>
      cases hhandling.symm.trans hrest
      cases limit with
      | zero => exact hbrief.elim
      | succ left => exact .inr ⟨_, left, rfl, hbrief _, by omega, by omega⟩
  | take hidle => cases hhandling.symm.trans hidle
  | shift hshift =>
      cases hshift with
      | @finish wake rests => exact .inl fun _ => by cases rests <;> exact nofun
      | aside hmove hspares =>
          refine .inr ⟨a, limit, hspares.dispatcher.trans hhandling, hbrief, Nat.le_refl _, ?_⟩
          intro hdispatching
          unfold Move.isDispatching at hdispatching
          split at hdispatching
          · exact absurd rfl hmove
          · cases hdispatching
      | rise hresting => cases hhandling.symm.trans hresting
      | leave hfree => exact absurd hhandling (hfree a)
      | _ => exact .inl nofun

end DispatcherStep

/-- While it follows a message, the dispatcher cannot leave, and its turn is never put off. -/
theorem carried_of_keeps {d : Daemon} {m : Machine} {taken : List WorkMessage} {e : Errand}
    (h : DispatcherKeeps d.settings.model taken e m.now m.dispatcher) (hbusy : ¬ m.Free) :
    m.quit .dispatcher = none ∧ (m.make d (.turn .dispatcher)).isSome := by
  unfold Free at hbusy
  push Not at hbusy
  obtain ⟨⟨wake, rest⟩, hhandling⟩ := hbusy
  rw [hhandling] at h
  have hready : ¬ m.now < wake := Nat.not_lt.2 h.1
  constructor
  · simp [quit, hhandling]
  · cases rest with
    | done rests => cases rests <;> simp [make, turn, dispatcherTurn, hhandling, hready,
        Pace.stepwise, single]
    | _ => simp [make, turn, dispatcherTurn, hhandling, hready, Pace.stepwise, single]

/-- As often as the dispatcher has its turn, it comes to be free. -/
theorem settles_free {d : Daemon} {past : List Occurrence} {m : Machine}
    (hsound : PartiesSound d past m) {moves : List Move} {later : List Occurrence} {last : Machine}
    (hharmless : ∀ move ∈ moves, move.Harmless) (hrun : m.run d moves = some (later, last))
    {limit : Nat} (hbrief : DispatcherBrief limit m.dispatcher)
    (hturns : limit < moves.countP Move.isDispatching) :
    ∃ first rest settled reached, moves = first ++ rest ∧
      m.run d first = some (settled, reached) ∧ reached.Free := by
  by_cases hfree : m.Free
  · exact ⟨[], moves, [], m, rfl, rfl, hfree⟩
  unfold Free at hfree
  push Not at hfree
  obtain ⟨a, hhandling⟩ := hfree
  rw [hhandling] at hbrief
  induction moves generalizing past m later limit a with
  | nil => simp at hturns
  | cons move rest ih =>
      obtain ⟨m', tail, hmake, hrest, rfl⟩ := run_cons_eq_some hrun
      have hsound' := hsound.step
        (step_of_make hsound.supervisor (hharmless move (by simp)) hmake)
      have hstep := (steps_of_make hsound.supervisor hmake).1
      rcases hstep.nears hhandling hbrief with hfree | ⟨a', left, hstill, hleft, hle, hlt⟩
      · exact ⟨[move], rest, [⟨m, move⟩], m', rfl, by simp [run, hmake], hfree⟩
      · have hcount : left < rest.countP Move.isDispatching := by
          rw [List.countP_cons] at hturns
          split at hturns
          · have hfewer := hlt ‹_›
            omega
          · omega
        obtain ⟨first, others, settled, reached, rfl, hfirst, hreached⟩ :=
          ih hsound' (fun move hmem => hharmless move (by simp [hmem])) hrest hcount a' hleft hstill
        refine ⟨move :: first, others, ⟨m, move⟩ :: settled, reached, rfl, ?_, hreached⟩
        simp [run, hmake, hfirst]

end Machine

/-! ## What holds at every moment -/

/-- The machine after these occurrences, begun in this world, is as they tell, and the dispatcher is
on its way with what it took last. -/
structure Followed (d : Daemon) (start : World) (past : List Occurrence) (m : Machine) : Prop where
  told : Told d start past m
  keeps : DispatcherKeeps d.settings.model (messages past) (errand past) m.now m.dispatcher
  brief : DispatcherBrief Daemon.handlingLimit m.dispatcher

theorem Followed.step {d : Daemon} {start : World} {past : List Occurrence} {m m' : Machine}
    {move : Move} (h : Followed d start past m) (hharmless : move.Harmless)
    (hmake : m.make d move = some m') : Followed d start (past ++ [⟨m, move⟩]) m' := by
  have hstep := step_of_make h.told.parties.supervisor hharmless hmake
  have hdispatcher := (steps_of_make h.told.parties.supervisor hmake).1
  refine ⟨h.told.step hstep, ?_, hdispatcher.brief h.brief⟩
  rw [messages_concat, errand_concat]
  exact hdispatcher.keeps hstep.now_le h.keeps

theorem Followed.run {d : Daemon} {start : World} {past : List Occurrence} {m last : Machine}
    (h : Followed d start past m) {moves : List Move} {later : List Occurrence}
    (hharmless : ∀ move ∈ moves, move.Harmless) (hrun : m.run d moves = some (later, last)) :
    Followed d start (past ++ later) last :=
  run_keeps (fun hfollowed => hfollowed.step) h (forall_move_of_run hharmless hrun) hrun

theorem Machine.Unlaunched.followed {m : Machine} (h : m.Unlaunched) (d : Daemon)
    (interval : Float) : Followed d m.world [] (m.launch d interval) := by
  have htold := h.told d interval
  obtain ⟨journal, dispatcher, supervisor, hfree, -, -, hlaunch⟩ :=
    m.launch_eq d interval h.dispatcher
  rw [hlaunch] at htold ⊢
  cases dispatcher with
  | handling a => exact absurd rfl (hfree a)
  | _ => exact ⟨htold, rfl, trivial⟩

end ChipChain
