import ChipChain.Proofs.Daemon.Conduct

/-!
# Moves, seen from the dispatcher

Every move of a started machine is either the dispatcher's own, of one of a few kinds,
or leaves the dispatcher's part of the machine alone (`DispatcherStep`). And every
move leaves the world as one action does, or with other reports, or as time or somebody
outside has changed it (`WorldStep`).
-/

namespace ChipChain

namespace Occurrence

variable {m : Machine}

theorem acting {wake : Nat} {action : Action} {next : action.Answer → Routine ChainError Bool}
    (h : m.dispatcher = .handling ⟨wake, .act action next⟩) :
    taken? ⟨m, .turn .dispatcher⟩ = none ∧
      deedOf? ⟨m, .turn .dispatcher⟩ .dispatcher = some action := by
  constructor
  · simp [taken?, Machine.message?, h]
  · rw [deedOf?_turn, Machine.next?, h]
    rfl

theorem next?_of_deedOf? {o : Occurrence} {party : Party} {action : Action}
    (h : o.deedOf? party = some action) : o.machine.next? party = some action := by
  obtain ⟨m, move⟩ := o
  cases move with
  | turn mover =>
      by_cases hmover : mover = party
      · subst hmover
        rwa [deedOf?_turn] at h
      · rw [deedOf?_of_ne m hmover] at h
        cases h
  | _ => cases h

theorem taking {since : Nat} {message : WorkMessage} {inbox : List WorkMessage}
    (hidle : m.dispatcher = .idle since) (hinbox : m.inbox = message :: inbox) :
    taken? ⟨m, .turn .dispatcher⟩ = some message := by
  simp [taken?, Machine.message?, hidle, hinbox]

end Occurrence

namespace Machine

/-! ## The dispatcher's part -/

/-- The dispatcher's part of the machine is left alone: messages may come in or end, and the daemon
may begin to shut down. -/
structure Spares (m m' : Machine) : Prop where
  dispatcher : m'.dispatcher = m.dispatcher
  jobRest : m'.jobRest = m.jobRest
  inbox : m.inbox <+: m'.inbox
  source : m.sourceOpen = false → m'.sourceOpen = false
  shutdown : m.shutdown = true → m'.shutdown = true

theorem Spares.of_eq {m m' : Machine} (hdispatcher : m'.dispatcher = m.dispatcher)
    (hjobRest : m'.jobRest = m.jobRest) (hinbox : m'.inbox = m.inbox)
    (hsource : m'.sourceOpen = m.sourceOpen) (hshutdown : m'.shutdown = m.shutdown) :
    Spares m m' :=
  ⟨hdispatcher, hjobRest, hinbox ▸ List.prefix_refl _, hsource.trans, hshutdown.trans⟩

/-- Without an action, and without a message taken, the dispatcher changes its place or keeps it. -/
inductive DispatcherShift (m : Machine) : Move → Machine → Prop
  | finish {wake : Nat} {rests : Bool} (hrest : m.dispatcher = .handling ⟨wake, .done rests⟩) :
      DispatcherShift m (.turn .dispatcher)
        { m with dispatcher := if rests then .resting (m.now + m.jobRest) else .idle m.now }
  | lose {wake : Nat} {e : ChainError} (hrest : m.dispatcher = .handling ⟨wake, .fail e⟩) :
      DispatcherShift m (.turn .dispatcher)
        (m.raiseFault "Failed to dispatch job" e).dismissDispatcher
  | rise {wake : Nat} (hresting : m.dispatcher = .resting wake) (hwake : wake ≤ m.now) :
      DispatcherShift m (.turn .dispatcher) { m with dispatcher := .idle m.now }
  | close {since : Nat} (hidle : m.dispatcher = .idle since) (hinbox : m.inbox = [])
      (hsource : m.sourceOpen = false) :
      DispatcherShift m (.turn .dispatcher)
        (m.note (Daemon.say .debug "Work source closed")).dismissDispatcher
  | leave (hfree : ∀ a, m.dispatcher ≠ .handling a) (hshutdown : m.shutdown = true) :
      DispatcherShift m (.quit .dispatcher) m.dismissDispatcher
  | aside {move : Move} {m' : Machine} (hmove : move ≠ .turn .dispatcher) (h : Spares m m') :
      DispatcherShift m move m'

theorem DispatcherShift.quiet {m m' : Machine} {move : Move} (h : DispatcherShift m move m') :
    Occurrence.taken? ⟨m, move⟩ = none ∧ Occurrence.deedOf? ⟨m, move⟩ .dispatcher = none := by
  have hturn (hmessage : m.message? = none) (hnext : m.next? .dispatcher = none) :
      Occurrence.taken? ⟨m, .turn .dispatcher⟩ = none ∧
        Occurrence.deedOf? ⟨m, .turn .dispatcher⟩ .dispatcher = none :=
    ⟨hmessage, (Occurrence.deedOf?_turn m .dispatcher).trans hnext⟩
  cases h with
  | finish hrest => exact hturn (by simp [message?, hrest]) (by simp [next?, hrest, Routine.head?])
  | lose hrest => exact hturn (by simp [message?, hrest]) (by simp [next?, hrest, Routine.head?])
  | rise hresting => exact hturn (by simp [message?, hresting]) (by simp [next?, hresting])
  | close hidle hinbox =>
      exact hturn (by simp [message?, hidle, hinbox]) (by simp [next?, hidle])
  | leave => exact ⟨rfl, rfl⟩
  | aside hmove =>
      cases move with
      | turn party =>
          cases party with
          | dispatcher => exact absurd rfl hmove
          | _ => exact ⟨rfl, rfl⟩
      | _ => exact ⟨rfl, rfl⟩

inductive DispatcherStep (d : Daemon) (m : Machine) : Move → Machine → Prop
  | act {wake : Nat} {action : Action} {next : action.Answer → Routine ChainError Bool}
      (hrest : m.dispatcher = .handling ⟨wake, .act action next⟩) (hwake : wake ≤ m.now) :
      DispatcherStep d m (.turn .dispatcher)
        { m with
          world := (m.world.perform action).2.2
          dispatcher := .handling
            ⟨(m.world.perform action).2.2.clock + (m.world.perform action).2.1,
              next (m.world.perform action).1⟩ }
  | take {since : Nat} {message : WorkMessage} {inbox : List WorkMessage}
      (hidle : m.dispatcher = .idle since) (hinbox : m.inbox = message :: inbox) :
      DispatcherStep d m (.turn .dispatcher)
        { m with inbox, dispatcher := .handling ⟨m.now, d.handle message⟩ }
  | shift {move : Move} {m' : Machine} (h : DispatcherShift m move m') : DispatcherStep d m move m'

/-! ## The world -/

/-- How a move leaves the world. -/
inductive WorldStep (m : Machine) (move : Move) : World → Prop
  | deed {action : Action} (hdeed : Occurrence.deed? ⟨m, move⟩ = some action) :
      WorldStep m move (m.world.perform action).2.2
  | noted (hdeed : Occurrence.deed? ⟨m, move⟩ = none) (journal : Journal) :
      WorldStep m move { m.world with journal }
  | changed {f : World → World} (hmove : move = .meet (.change f)) : WorldStep m move (f m.world)
  | elapsed {ms : Nat} (hmove : move = .elapse ms) : WorldStep m move (m.world.after ms)

theorem WorldStep.of_deed {m : Machine} {move : Move} {w : World} {action : Action}
    (h : WorldStep m move w) (hdeed : Occurrence.deed? ⟨m, move⟩ = some action) :
    w = (m.world.perform action).2.2 := by
  cases h with
  | deed hsame =>
      cases hsame.symm.trans hdeed
      rfl
  | noted hnone => cases hnone.symm.trans hdeed
  | changed hmove | elapsed hmove =>
      subst hmove
      cases hdeed

section

variable {d : Daemon} {m m' : Machine}

theorem DispatcherStep.jobRest {move : Move} (h : DispatcherStep d m move m') :
    m'.jobRest = m.jobRest := by
  cases h with
  | act | take => rfl
  | shift hshift =>
      cases hshift with
      | aside _ hspares => exact hspares.jobRest
      | _ => rfl

theorem spares_of_managerTurn (h : m.managerTurn d .stepwise = some m') :
    Spares m m' ∧ WorldStep m (.turn .manager) m'.world := by
  cases managerStep_of_turn h with
  | act hrest =>
      refine ⟨.of_eq rfl rfl rfl rfl rfl, .deed ?_⟩
      simp [Occurrence.deed?, next?, hrest, Routine.head?]
  | rest hrest | poll hrest =>
      refine ⟨.of_eq rfl rfl rfl rfl rfl, .noted ?_ _⟩
      simp [Occurrence.deed?, next?, hrest, Routine.head?]

theorem spares_of_readerTurn (h : m.readerTurn d .stepwise = some m') :
    Spares m m' ∧ WorldStep m (.turn .reader) m'.world := by
  cases readerStep_of_turn h with
  | act hrest =>
      refine ⟨.of_eq rfl rfl rfl rfl rfl, .deed ?_⟩
      simp [Occurrence.deed?, next?, hrest, Routine.head?]
  | again hrest | lose hrest =>
      refine ⟨.of_eq rfl rfl rfl rfl rfl, .noted ?_ _⟩
      simp [Occurrence.deed?, next?, hrest, Routine.head?]

theorem spares_of_supervisorTurn (hstarted : ∀ a, m.supervisor ≠ .starting a)
    (h : m.supervisorTurn d .stepwise = some m') :
    Spares m m' ∧ WorldStep m (.turn .supervisor) m'.world := by
  have hdeed : Occurrence.deed? ⟨m, .turn .supervisor⟩ = none := by
    cases hsupervisor : m.supervisor with
    | starting a => exact absurd hsupervisor (hstarted a)
    | _ => simp [Occurrence.deed?, next?, hsupervisor]
  cases supervisorStep_of_turn h with
  | act hrest | abort hrest | launch hrest => exact absurd hrest (hstarted _)
  | stop _ journal =>
      exact ⟨⟨rfl, rfl, List.prefix_refl _, id, fun _ => rfl⟩, .noted hdeed journal⟩
  | finish _ _ journal _ => exact ⟨.of_eq rfl rfl rfl rfl rfl, .noted hdeed journal⟩

theorem dispatcherStep_of_turn (h : m.dispatcherTurn d .stepwise = some m') :
    DispatcherStep d m (.turn .dispatcher) m' := by
  unfold dispatcherTurn at h
  cases hdispatcher : m.dispatcher with
  | stopped =>
      rw [hdispatcher] at h
      cases h
  | idle since =>
      rw [hdispatcher] at h
      cases hinbox : m.inbox with
      | cons message inbox =>
          rw [hinbox] at h
          cases h
          exact .take hdispatcher hinbox
      | nil =>
          rw [hinbox] at h
          dsimp only at h
          split at h
          · cases h
          · cases h
            exact .shift (.close hdispatcher hinbox (Bool.not_eq_true _ ▸ ‹¬ _›))
  | resting wake =>
      rw [hdispatcher] at h
      dsimp only at h
      split at h
      · cases h
      · cases h
        exact .shift (.rise hdispatcher (Nat.le_of_not_lt ‹_›))
  | handling a =>
      obtain ⟨wake, rest⟩ := a
      rw [hdispatcher] at h
      dsimp only at h
      split at h
      · cases h
      · cases rest with
        | act action next =>
            cases h
            exact .act hdispatcher (Nat.le_of_not_lt ‹_›)
        | fail e =>
            cases h
            exact .shift (.lose hdispatcher)
        | done rests =>
            have hends := DispatcherShift.finish hdispatcher
            cases rests <;> cases h <;> exact .shift hends

theorem DispatcherStep.world (h : DispatcherStep d m (.turn .dispatcher) m') :
    WorldStep m (.turn .dispatcher) m'.world := by
  cases h with
  | act hrest => exact .deed (by simp [Occurrence.deed?, next?, hrest, Routine.head?])
  | take hidle _ => exact .noted (by simp [Occurrence.deed?, next?, hidle]) _
  | shift hshift =>
      have hdeed : Occurrence.deed? ⟨m, .turn .dispatcher⟩ = none :=
        (Occurrence.deedOf?_turn m .dispatcher).symm.trans hshift.quiet.2
      cases hshift with
      | aside hmove => exact absurd rfl hmove
      | _ => exact .noted hdeed _

theorem steps_of_quit {party : Party} (h : m.quit party = some m') :
    DispatcherStep d m (.quit party) m' ∧ WorldStep m (.quit party) m'.world := by
  cases leaving_of_quit h with
  | manager _ _ | reader _ _ =>
      exact ⟨.shift (.aside nofun (.of_eq rfl rfl rfl rfl rfl)), .noted rfl _⟩
  | dispatcher hfree _ hshutdown => exact ⟨.shift (.leave hfree hshutdown), .noted rfl _⟩

theorem spares_of_meet {event : Event} (h : m.meet d event = some m') :
    Spares m m' ∧ WorldStep m (.meet event) m'.world := by
  cases event with
  | change f =>
      cases h
      exact ⟨.of_eq rfl rfl rfl rfl rfl, .changed rfl⟩
  | message message =>
      unfold meet at h
      dsimp only at h
      split at h
      · cases h
        exact ⟨.of_eq rfl rfl rfl rfl rfl, .noted rfl _⟩
      · split at h
        · cases h
          exact ⟨⟨rfl, rfl, List.prefix_append _ _, id, id⟩, .noted rfl _⟩
        · cases h
  | closeWork =>
      cases h
      exact ⟨⟨rfl, rfl, List.prefix_refl _, fun _ => rfl, id⟩, .noted rfl _⟩
  | shutdown =>
      cases h
      exact ⟨⟨rfl, rfl, List.prefix_refl _, id, fun _ => rfl⟩, .noted rfl _⟩
  | stop =>
      cases h
      exact ⟨⟨rfl, rfl, List.prefix_refl _, id, fun _ => rfl⟩, .noted rfl _⟩

/-- What a move of a started machine does, to the dispatcher's part and to the world. -/
theorem steps_of_make {move : Move} (hstarted : ∀ a, m.supervisor ≠ .starting a)
    (h : m.make d move = some m') : DispatcherStep d m move m' ∧ WorldStep m move m'.world := by
  have haside {move : Move} (hmove : move ≠ .turn .dispatcher)
      (h : Spares m m' ∧ WorldStep m move m'.world) :
      DispatcherStep d m move m' ∧ WorldStep m move m'.world :=
    ⟨.shift (.aside hmove h.1), h.2⟩
  cases move with
  | turn party =>
      cases party with
      | manager => exact haside (by simp) (spares_of_managerTurn h)
      | reader => exact haside (by simp) (spares_of_readerTurn h)
      | dispatcher => exact ⟨dispatcherStep_of_turn h, (dispatcherStep_of_turn h).world⟩
      | supervisor => exact haside (by simp) (spares_of_supervisorTurn hstarted h)
  | quit party => exact steps_of_quit h
  | meet event => exact haside nofun (spares_of_meet h)
  | elapse ms =>
      cases h
      exact haside nofun ⟨.of_eq rfl rfl rfl rfl rfl, .elapsed rfl⟩

end

end Machine

end ChipChain
