import ChipChain.Proofs.Daemon.Run

/-!
# What each party does

At every moment of a run each party follows its protocol: what it is about to do
is what the protocol allows after all that has happened. With something in hand
the reader neither waits nor can be stopped. So whoever performs an action, it
was due.
-/

namespace ChipChain

open Machine Routine

/-! ## What an action changes -/

def Action.KeepsJobs : Action → Prop
  | install _ _ => False
  | clearJobs => False
  | _ => True

theorem Action.Aside.keepsJobs {action : Action} (h : action.Aside) : action.KeepsJobs := by
  cases action <;> trivial

theorem Hearing.May.keepsJobs {model : Model} {h : Hearing} {action : Action}
    (hmay : h.May model action) : action.KeepsJobs := by
  cases action <;> trivial

namespace World

theorem clock_perform (w : World) (action : Action) :
    (w.perform action).2.2.clock = w.clock := by
  cases action with
  | regulate volts =>
      obtain ⟨_, hperform⟩ := w.perform_regulate volts
      rw [hperform]
  | deliver found =>
      obtain ⟨_, hperform⟩ := w.perform_deliver found
      rw [hperform]
  | _ => rfl

theorem consumer_perform (w : World) (action : Action) :
    (w.perform action).2.2.consumer = w.consumer := by
  cases action with
  | regulate volts =>
      obtain ⟨_, hperform⟩ := w.perform_regulate volts
      rw [hperform]
  | deliver found =>
      obtain ⟨_, hperform⟩ := w.perform_deliver found
      rw [hperform]
  | _ => rfl

theorem jobs_perform {action : Action} (h : action.KeepsJobs) (w : World) :
    (w.perform action).2.2.ledger.jobs = w.ledger.jobs := by
  cases action with
  | install _ _ => exact h.elim
  | clearJobs => exact h.elim
  | regulate volts =>
      obtain ⟨_, hperform⟩ := w.perform_regulate volts
      rw [hperform]
  | deliver found =>
      obtain ⟨_, hperform⟩ := w.perform_deliver found
      rw [hperform]
  | _ => rfl

def results (w : World) : List Found :=
  w.found.toList.map Prod.snd

theorem results_perform_deliver (w : World) (found : Found) (h : w.consumer = .present) :
    (w.perform (.deliver found)).2.2.results = w.results ++ [found] := by
  unfold perform
  rw [h]
  simp [results]

theorem results_perform {action : Action} (h : ∀ found, action ≠ .deliver found) (w : World) :
    (w.perform action).2.2.results = w.results := by
  cases action with
  | deliver found => exact absurd rfl (h found)
  | regulate volts =>
      obtain ⟨_, hperform⟩ := w.perform_regulate volts
      rw [hperform]
      rfl
  | _ => rfl

end World

/-! ## Who did it -/

namespace Occurrence

variable {o : Occurrence} {action : Action}

theorem deed?_of_deedOf? {party : Party} (h : o.deedOf? party = some action) :
    o.deed? = some action := by
  obtain ⟨m, move⟩ := o
  cases move with
  | turn mover =>
      by_cases hmover : mover = party
      · subst hmover
        simpa [deedOf?, deed?] using h
      · simp [deedOf?, hmover] at h
  | _ => cases h

theorem deedOf?_turn (m : Machine) (party : Party) :
    deedOf? ⟨m, .turn party⟩ party = m.next? party :=
  if_pos rfl

theorem deedOf?_of_ne (m : Machine) {mover party : Party} (h : mover ≠ party) :
    deedOf? ⟨m, .turn mover⟩ party = none :=
  if_neg h

theorem deedOf?_of_deed?_eq_none (h : o.deed? = none) (party : Party) :
    o.deedOf? party = none := by
  cases hdeed : o.deedOf? party with
  | none => rfl
  | some action =>
      rw [deed?_of_deedOf? hdeed] at h
      cases h

end Occurrence

/-- What happened to the world is what the action did that somebody performed, or nothing. -/
theorem Machine.Step.world {d : Daemon} {m m' : Machine} {move : Move} (h : Step d m move m') :
    (∃ action, Occurrence.deed? ⟨m, move⟩ = some action ∧
        m'.world = (m.world.perform action).2.2) ∨
      (Occurrence.deed? ⟨m, move⟩ = none ∧ m.world.Alike m'.world) := by
  cases h with
  | read hrest => exact .inl ⟨_, by simp [Occurrence.deed?, next?, hrest, head?], rfl⟩
  | dispatch hrest => exact .inl ⟨_, by simp [Occurrence.deed?, next?, hrest, head?], rfl⟩
  | manage hrest => exact .inl ⟨_, by simp [Occurrence.deed?, next?, hrest, head?], rfl⟩
  | reread hrest =>
      exact .inr ⟨by simp [Occurrence.deed?, next?, hrest, head?], .of_journal m.world _⟩
  | lose hrest =>
      exact .inr ⟨by simp [Occurrence.deed?, next?, hrest, head?], .of_journal m.world _⟩
  | leave hrest => exact .inr ⟨rfl, .of_journal m.world _⟩
  | take hidle _ =>
      exact .inr ⟨by simp [Occurrence.deed?, next?, hidle], .of_journal m.world _⟩
  | poll hresting =>
      exact .inr ⟨by simp [Occurrence.deed?, next?, hresting], .of_journal m.world _⟩
  | quiet hdeed _ hworld _ _ _ _ => exact .inr ⟨hdeed, hworld⟩

theorem Machine.Step.world_of_deed {d : Daemon} {m m' : Machine} {move : Move} {action : Action}
    (h : Step d m move m') (hdeed : Occurrence.deed? ⟨m, move⟩ = some action) :
    m'.world = (m.world.perform action).2.2 := by
  rcases h.world with ⟨_, hsome, hworld⟩ | ⟨hnone, -⟩
  · rw [hsome] at hdeed
    cases hdeed
    exact hworld
  · rw [hnone] at hdeed
    cases hdeed

theorem Machine.Step.alike {d : Daemon} {m m' : Machine} {move : Move}
    (h : Step d m move m') (hdeed : Occurrence.deed? ⟨m, move⟩ = none) :
    m.world.Alike m'.world := by
  rcases h.world with ⟨_, hsome, -⟩ | ⟨-, hworld⟩
  · rw [hsome] at hdeed
    cases hdeed
  · exact hworld

/-! ## The reader carries through what it has in hand -/

/-- What the reader still has to do fits what it has in hand; with something in hand it neither
waits nor can be stopped. -/
def ReaderSound (model : Model) (h : Hearing) (now : Nat) : ReaderTask → Prop
  | .reading a breakable =>
    a.rest.Obeys model.reading (fun _ h => h = .nothing) h ∧
      (h = .nothing ∨ breakable = false ∧ a.wake ≤ now)
  | .stopped => h = .nothing

theorem Hearing.next_of_wait {model : Model} {h : Hearing} {w : World} {action : Action}
    (hmay : h.May model action) (hwait : (w.perform action).2.1 ≠ 0) :
    h.next model action (w.perform action).1 = .nothing := by
  cases action with
  | receive capacity window =>
      have hempty : ofReply model (.ok []) = .nothing := by cases model <;> rfl
      change ofReply model (Line.take capacity window w.line.replies).1 = .nothing
      change (Line.take capacity window w.line.replies).2.1 ≠ 0 at hwait
      match w.line.replies, hwait with
      | [], _ => exact hempty
      | .silence :: _, _ => exact hempty
      | .fault _ :: _, hwait => exact absurd rfl hwait
      | .bytes _ :: _, hwait => exact absurd rfl hwait
  | deliver found => rfl
  | note entry => exact absurd rfl hwait
  | flush => exact absurd rfl hwait
  | lookUp id => exact absurd rfl hwait
  | screen nonce => exact absurd rfl hwait
  | _ => exact hmay.elim

namespace ReaderSound

variable {model : Model} {h : Hearing} {now : Nat} {task : ReaderTask}

theorem later (hsound : ReaderSound model h now task) {now' : Nat} (hnow : now ≤ now') :
    ReaderSound model h now' task := by
  cases task with
  | stopped => exact hsound
  | reading a breakable =>
      obtain ⟨hobeys, hready⟩ := hsound
      refine ⟨hobeys, hready.imp_right ?_⟩
      rintro ⟨hbreakable, hwake⟩
      exact ⟨hbreakable, hwake.trans hnow⟩

theorem busy (hsound : ReaderSound model h now task) (hsome : h ≠ .nothing) :
    ∃ wake action next, task = .reading ⟨wake, .act action next⟩ false ∧ wake ≤ now := by
  match task, hsound with
  | .stopped, hsound => exact absurd hsound hsome
  | .reading ⟨wake, .done _⟩ _, ⟨hends, _⟩ => exact absurd hends hsome
  | .reading ⟨wake, .fail _⟩ _, ⟨hends, _⟩ => exact absurd hends hsome
  | .reading ⟨wake, .act action next⟩ _, ⟨_, hready⟩ =>
      obtain ⟨rfl, hwake⟩ := hready.resolve_left hsome
      exact ⟨wake, action, next, rfl, hwake⟩

theorem perform {wake : Nat} {action : Action} {breakable : Bool}
    {next : action.Answer → Routine ChainError Unit}
    (hsound : ReaderSound model h now (.reading ⟨wake, .act action next⟩ breakable)) (w : World) :
    ReaderSound model (h.next model action (w.perform action).1) (w.perform action).2.2.clock
      (.reading ⟨(w.perform action).2.2.clock + (w.perform action).2.1,
        next (w.perform action).1⟩ ((w.perform action).2.1 != 0)) := by
  obtain ⟨⟨hmay, hobeys⟩, -⟩ := hsound
  refine ⟨hobeys _, ?_⟩
  by_cases hwait : (w.perform action).2.1 = 0
  · rw [hwait]
    exact .inr ⟨rfl, Nat.le_refl _⟩
  · exact .inl (Hearing.next_of_wait hmay hwait)

end ReaderSound

namespace Occurrence

variable {model : Model} {o : Occurrence}

theorem hear_of_deed {action : Action} (h : o.deedOf? .reader = some action) (held : Hearing) :
    o.hear model held = held.next model action (o.answer action) := by
  rw [hear, h]

theorem hear_of_none (h : o.deedOf? .reader = none) (held : Hearing) :
    o.hear model held = held := by
  rw [hear, h]

end Occurrence

namespace Machine.Step

variable {d : Daemon} {m m' : Machine} {move : Move}

theorem now_le (h : Step d m move m') : m.now ≤ m'.now := by
  rcases h.world with ⟨action, -, hworld⟩ | ⟨-, hworld⟩
  · rw [now, now, hworld, World.clock_perform]
  · exact hworld.clock

theorem reader_sound {model : Model} {held : Hearing} (hmodel : d.settings.model = model)
    (h : Step d m move m') (hsound : ReaderSound model held m.now m.reader) :
    ReaderSound model (Occurrence.hear model held ⟨m, move⟩) m'.now m'.reader := by
  have hnow := h.now_le
  -- Whoever else acts, the reader stays as it is.
  have hother (hnone : Occurrence.deedOf? ⟨m, move⟩ .reader = none)
      (hreader : m'.reader = m.reader) :
      ReaderSound model (Occurrence.hear model held ⟨m, move⟩) m'.now m'.reader := by
    rw [Occurrence.hear_of_none hnone, hreader]
    exact hsound.later hnow
  cases h with
  | @read wake action next breakable hrest =>
      have hdeed : Occurrence.deedOf? ⟨m, .turn .reader⟩ .reader = some action := by
        rw [Occurrence.deedOf?_turn, next?, hrest]
        rfl
      rw [hrest] at hsound
      rw [Occurrence.hear_of_deed hdeed]
      exact hsound.perform m.world
  | reread hrest =>
      have hnone : Occurrence.deedOf? ⟨m, .turn .reader⟩ .reader = none := by
        rw [Occurrence.deedOf?_turn, next?, hrest]
        rfl
      rw [hrest] at hsound
      obtain ⟨rfl, -⟩ := hsound
      rw [Occurrence.hear_of_none hnone]
      subst hmodel
      exact ⟨d.readOnce_obeys, .inl rfl⟩
  | lose hrest =>
      have hnone : Occurrence.deedOf? ⟨m, .turn .reader⟩ .reader = none := by
        rw [Occurrence.deedOf?_turn, next?, hrest]
        rfl
      rw [hrest] at hsound
      rw [Occurrence.hear_of_none hnone]
      exact hsound.1
  | leave hrest =>
      rw [hrest] at hsound
      have hnothing : held = .nothing := by simpa using hsound.2
      exact hnothing
  | dispatch | take | manage | poll =>
      exact hother (Occurrence.deedOf?_of_ne m (by decide)) rfl
  | quiet hdeed _ _ hreader _ _ _ =>
      exact hother (Occurrence.deedOf?_of_deed?_eq_none hdeed .reader) hreader

end Machine.Step

/-! ## The reader soon has nothing in hand -/

def ReaderBrief (limit : Nat) : ReaderTask → Prop
  | .reading a _ => a.rest.Brief limit
  | .stopped => True

def Machine.Move.isReading : Move → Bool
  | .turn .reader => true
  | _ => false

namespace Machine.Step

variable {d : Daemon} {m m' : Machine} {move : Move}

theorem reader_brief (h : Step d m move m') (hbrief : ReaderBrief Daemon.readingLimit m.reader) :
    ReaderBrief Daemon.readingLimit m'.reader := by
  cases h with
  | read hrest =>
      rw [hrest] at hbrief
      exact Brief.mono (hbrief _) 1
  | reread => exact d.readOnce_brief
  | lose | leave => trivial
  | quiet _ _ _ hreader _ _ _ => rwa [hreader]
  | _ => exact hbrief

/-- With something in hand, a turn of the reader brings it one action closer to its end, and
nothing else touches it. -/
theorem reader_nears {model : Model} {held : Hearing} {limit : Nat} (h : Step d m move m')
    (hsound : ReaderSound model held m.now m.reader) (hsome : held ≠ .nothing)
    (hbrief : ReaderBrief limit m.reader) :
    ∃ left, ReaderBrief left m'.reader ∧ left ≤ limit ∧
      (move.isReading = true → left < limit) := by
  obtain ⟨wake, action, next, hbusy, -⟩ := hsound.busy hsome
  cases h with
  | read hrest =>
      rw [hrest] at hbrief
      cases limit with
      | zero => exact hbrief.elim
      | succ left => exact ⟨left, hbrief _, by omega, by omega⟩
  | reread hrest =>
      rw [hbusy] at hrest
      cases hrest
  | lose hrest =>
      rw [hbusy] at hrest
      cases hrest
  | leave hrest =>
      rw [hbusy] at hrest
      cases hrest
  | quiet hdeed _ _ hreader _ _ _ =>
      refine ⟨limit, hreader ▸ hbrief, Nat.le_refl _, ?_⟩
      intro hreading
      cases move with
      | turn party =>
          cases party with
          | reader =>
              have hnext : m.next? .reader = none := hdeed
              rw [next?, hbusy] at hnext
              cases hnext
          | _ => cases hreading
      | _ => cases hreading
  | _ => exact ⟨limit, hbrief, Nat.le_refl _, by simp [Move.isReading]⟩

end Machine.Step

/-! ## The dispatcher -/

def DispatcherSound (model : Model) (e : Errand) : DispatcherTask → Prop
  | .handling a => a.rest.Obeys model.dispatching (fun _ _ => True) e
  | _ => True

namespace Occurrence

variable {o : Occurrence}

theorem advance_of_taken {message : WorkMessage} (h : o.taken? = some message) (e : Errand) :
    o.advance e = .ofMessage message := by
  rw [advance, h]

theorem advance_of_deed {action : Action} (htaken : o.taken? = none)
    (h : o.deedOf? .dispatcher = some action) (e : Errand) :
    o.advance e = e.next action (o.answer action) := by
  rw [advance, htaken, h]

theorem advance_of_none (htaken : o.taken? = none) (h : o.deedOf? .dispatcher = none)
    (e : Errand) : o.advance e = e := by
  rw [advance, htaken, h]

end Occurrence

namespace Machine.Step

variable {d : Daemon} {m m' : Machine} {move : Move}

theorem dispatcher_sound {model : Model} {e : Errand} (hmodel : d.settings.model = model)
    (h : Step d m move m') (hsound : DispatcherSound model e m.dispatcher) :
    DispatcherSound model (Occurrence.advance e ⟨m, move⟩) m'.dispatcher := by
  have hother (htaken : Occurrence.taken? ⟨m, move⟩ = none)
      (hnone : Occurrence.deedOf? ⟨m, move⟩ .dispatcher = none)
      (hdispatcher : m'.dispatcher = m.dispatcher) :
      DispatcherSound model (Occurrence.advance e ⟨m, move⟩) m'.dispatcher := by
    rwa [Occurrence.advance_of_none htaken hnone, hdispatcher]
  cases h with
  | @dispatch wake action next hrest =>
      have htaken : Occurrence.taken? ⟨m, .turn .dispatcher⟩ = none := by
        simp [Occurrence.taken?, message?, hrest]
      have hdeed : Occurrence.deedOf? ⟨m, .turn .dispatcher⟩ .dispatcher = some action := by
        rw [Occurrence.deedOf?_turn, next?, hrest]
        rfl
      rw [hrest] at hsound
      rw [Occurrence.advance_of_deed htaken hdeed]
      exact hsound.2 _
  | @take since message inbox hidle hinbox =>
      have htaken : Occurrence.taken? ⟨m, .turn .dispatcher⟩ = some message := by
        simp [Occurrence.taken?, message?, hidle, hinbox]
      rw [Occurrence.advance_of_taken htaken]
      subst hmodel
      exact (d.handle_obeys message).mono fun _ _ _ => trivial
  | leave => exact hother rfl rfl rfl
  | read | reread | lose | manage | poll =>
      exact hother rfl (Occurrence.deedOf?_of_ne m (by decide)) rfl
  | quiet hdeed htaken _ _ hdispatcher _ _ =>
      rcases hdispatcher with hsame | hleft
      · exact hother htaken (Occurrence.deedOf?_of_deed?_eq_none hdeed .dispatcher) hsame
      · cases hdispatcher : m'.dispatcher with
        | handling a => exact absurd hdispatcher (hleft a)
        | _ => trivial

end Machine.Step

/-! ## All four parties -/

structure PartiesSound (d : Daemon) (past : List Occurrence) (m : Machine) : Prop where
  reader : ReaderSound d.settings.model (hearing d.settings.model past) m.now m.reader
  brief : ReaderBrief Daemon.readingLimit m.reader
  dispatcher : DispatcherSound d.settings.model (errand past) m.dispatcher
  manager : ∀ a, m.manager = .polling a → a.rest.Aside
  supervisor : ∀ a, m.supervisor ≠ .starting a

/-- Who performed an action, and that it was due. -/
inductive Deed (model : Model) (past : List Occurrence) (o : Occurrence) (action : Action) : Prop
  | reader (hdeed : o.deedOf? .reader = some action) (hother : o.deedOf? .dispatcher = none)
      (hmay : (hearing model past).May model action)
  | dispatcher (hdeed : o.deedOf? .dispatcher = some action) (hother : o.deedOf? .reader = none)
      (hmay : (errand past).May model action)
  | manager (hreader : o.deedOf? .reader = none) (hdispatcher : o.deedOf? .dispatcher = none)
      (haside : action.Aside)

namespace PartiesSound

variable {d : Daemon} {past : List Occurrence} {m m' : Machine} {move : Move}

theorem step (hsound : PartiesSound d past m) (h : Step d m move m') :
    PartiesSound d (past ++ [⟨m, move⟩]) m' where
  reader := by
    rw [hearing_concat]
    exact h.reader_sound rfl hsound.reader
  brief := h.reader_brief hsound.brief
  dispatcher := by
    rw [errand_concat]
    exact h.dispatcher_sound rfl hsound.dispatcher
  manager := by
    intro a ha
    cases h with
    | manage hrest =>
        cases ha
        exact (hsound.manager _ hrest).2 _
    | @poll wake manager hresting =>
        cases ha
        exact manager.poll_aside d
    | quiet _ _ _ _ _ hmanager _ =>
        rcases hmanager with hsame | hleft
        · exact hsound.manager a (hsame ▸ ha)
        · exact absurd ha (hleft a)
    | _ => exact hsound.manager a ha
  supervisor := by
    cases h with
    | quiet _ _ _ _ _ _ hsupervisor => exact hsupervisor
    | _ => exact hsound.supervisor

/-! The next action of each party is the one due. -/

section

variable {action : Action}

theorem reader_next (hsound : PartiesSound d past m) (h : m.next? .reader = some action) :
    (hearing d.settings.model past).May d.settings.model action := by
  have hreader := hsound.reader
  cases hrest : m.reader with
  | stopped =>
      rw [next?, hrest] at h
      cases h
  | reading a breakable =>
      rw [hrest] at hreader
      rw [next?, hrest] at h
      exact hreader.1.head? h

theorem dispatcher_next (hsound : PartiesSound d past m)
    (h : m.next? .dispatcher = some action) : (errand past).May d.settings.model action := by
  have hdispatcher := hsound.dispatcher
  cases hrest : m.dispatcher with
  | handling a =>
      rw [hrest] at hdispatcher
      rw [next?, hrest] at h
      exact hdispatcher.head? h
  | _ =>
      rw [next?, hrest] at h
      cases h

theorem manager_next (hsound : PartiesSound d past m) (h : m.next? .manager = some action) :
    action.Aside := by
  cases hrest : m.manager with
  | polling a =>
      rw [next?, hrest] at h
      exact (hsound.manager a hrest).head? h
  | _ =>
      rw [next?, hrest] at h
      cases h

theorem supervisor_next (hsound : PartiesSound d past m) : m.next? .supervisor = none := by
  cases hrest : m.supervisor with
  | starting a => exact absurd hrest (hsound.supervisor a)
  | _ => simp [next?, hrest]

end

theorem deed (hsound : PartiesSound d past m) {action : Action}
    (h : Occurrence.deed? ⟨m, move⟩ = some action) :
    Deed d.settings.model past ⟨m, move⟩ action := by
  cases move with
  | turn party =>
      have hnext : m.next? party = some action := h
      cases party with
      | reader =>
          exact .reader ((Occurrence.deedOf?_turn m .reader).trans hnext)
            (Occurrence.deedOf?_of_ne m (by decide)) (hsound.reader_next hnext)
      | dispatcher =>
          exact .dispatcher ((Occurrence.deedOf?_turn m .dispatcher).trans hnext)
            (Occurrence.deedOf?_of_ne m (by decide)) (hsound.dispatcher_next hnext)
      | manager =>
          exact .manager (Occurrence.deedOf?_of_ne m (by decide))
            (Occurrence.deedOf?_of_ne m (by decide)) (hsound.manager_next hnext)
      | supervisor =>
          rw [hsound.supervisor_next] at hnext
          cases hnext
  | _ => cases h

theorem reader_may (hsound : PartiesSound d past m) {action : Action}
    (h : Occurrence.deedOf? ⟨m, move⟩ .reader = some action) :
    (hearing d.settings.model past).May d.settings.model action := by
  cases hsound.deed (Occurrence.deed?_of_deedOf? h) with
  | reader _ _ hmay => exact hmay
  | dispatcher _ hnone _ =>
      rw [hnone] at h
      cases h
  | manager hnone _ _ =>
      rw [hnone] at h
      cases h

theorem dispatcher_may (hsound : PartiesSound d past m) {action : Action}
    (h : Occurrence.deedOf? ⟨m, move⟩ .dispatcher = some action) :
    (errand past).May d.settings.model action := by
  cases hsound.deed (Occurrence.deed?_of_deedOf? h) with
  | reader _ hnone _ =>
      rw [hnone] at h
      cases h
  | dispatcher _ _ hmay => exact hmay
  | manager _ hnone _ =>
      rw [hnone] at h
      cases h

theorem reader_of_deliver (hsound : PartiesSound d past m) {found : Found}
    (h : Occurrence.deed? ⟨m, move⟩ = some (.deliver found)) :
    Occurrence.deedOf? ⟨m, move⟩ .reader = some (.deliver found) := by
  cases hsound.deed h with
  | reader hdeed _ _ => exact hdeed
  | dispatcher _ _ hmay => exact hmay.elim
  | manager _ _ haside => exact haside.elim

end PartiesSound

end ChipChain
