import ChipChain.Proofs.Routine.Run

/-!
# Protocols

What a routine may do next can depend on what it has been answered so far. A
protocol keeps track of that in a state of its own; a routine obeys it if every
action it performs, whatever the answers, is one that the state allows.
-/

namespace ChipChain

/-- Which actions are allowed in a state, and which state an answer leads to. -/
structure Protocol (σ : Type) where
  may : σ → Action → Prop
  next : σ → (action : Action) → action.Answer → σ

namespace Routine

variable {ε δ α β σ : Type}

def head? : Routine ε α → Option Action
  | act action _ => some action
  | _ => none

theorem Within.head? {allowed : Action → Prop} {p : Routine ε α} {action : Action}
    (h : p.Within allowed) (hhead : p.head? = some action) : allowed action := by
  cases p with
  | act action next =>
      cases hhead
      exact h.1
  | _ => cases hhead

/-! ## Obeying -/

/-- From a state on, the routine does only what the protocol allows, and it ends as required. -/
def Obeys (P : Protocol σ) (ends : Except ε α → σ → Prop) : Routine ε α → σ → Prop
  | done value, s => ends (.ok value) s
  | fail error, s => ends (.error error) s
  | act action next, s =>
    P.may s action ∧ ∀ answer, (next answer).Obeys P ends (P.next s action answer)

namespace Obeys

variable {P : Protocol σ} {s : σ}

theorem perform_bind {action : Action} {f : action.Answer → Routine ε β}
    {ends : Except ε β → σ → Prop} (h : P.may s action)
    (hf : ∀ answer, (f answer).Obeys P ends (P.next s action answer)) :
    (Routine.perform action >>= f).Obeys P ends s :=
  ⟨h, hf⟩

theorem head? {p : Routine ε α} {action : Action} {ends : Except ε α → σ → Prop}
    (h : p.Obeys P ends s) (hhead : p.head? = some action) : P.may s action := by
  cases p with
  | act action next =>
      cases hhead
      exact h.1
  | _ => cases hhead

theorem mono {p : Routine ε α} {ends ends' : Except ε α → σ → Prop} (h : p.Obeys P ends s)
    (hsub : ∀ outcome s, ends outcome s → ends' outcome s) : p.Obeys P ends' s := by
  induction p generalizing s with
  | done value => exact hsub _ _ h
  | fail error => exact hsub _ _ h
  | act action next ih => exact ⟨h.1, fun answer => ih answer (h.2 answer)⟩

theorem within {p : Routine ε α} {ends : Except ε α → σ → Prop} {allowed : Action → Prop}
    (h : p.Obeys P ends s) (hsub : ∀ s action, P.may s action → allowed action) :
    p.Within allowed := by
  induction p generalizing s with
  | done value => trivial
  | fail error => trivial
  | act action next ih => exact ⟨hsub s action h.1, fun answer => ih answer (h.2 answer)⟩

theorem bind {p : Routine ε α} {f : α → Routine ε β} {middle : Except ε α → σ → Prop}
    {ends : Except ε β → σ → Prop} (hp : p.Obeys P middle s)
    (hf : ∀ value s, middle (.ok value) s → (f value).Obeys P ends s)
    (herror : ∀ error s, middle (.error error) s → ends (.error error) s) :
    (p >>= f).Obeys P ends s := by
  change (p.bind f).Obeys P ends s
  induction p generalizing s with
  | done value => exact hf value s hp
  | fail error => exact herror error s hp
  | act action next ih => exact ⟨hp.1, fun answer => ih answer (hp.2 answer)⟩

theorem attempt {p : Routine ε α} {ends : Except δ (Except ε α) → σ → Prop}
    (hp : p.Obeys P (fun outcome => ends (.ok outcome)) s) :
    (p.attempt : Routine δ (Except ε α)).Obeys P ends s := by
  induction p generalizing s with
  | done value => exact hp
  | fail error => exact hp
  | act action next ih => exact ⟨hp.1, fun answer => ih answer (hp.2 answer)⟩

end Obeys

/-! ## Brevity -/

/-- Whatever it is answered, the routine ends after at most so many actions. -/
def Brief : Routine ε α → Nat → Prop
  | done _, _ => True
  | fail _, _ => True
  | act _ _, 0 => False
  | act _ next, limit + 1 => ∀ answer, (next answer).Brief limit

namespace Brief

variable {limit : Nat}

theorem done (value : α) : (Routine.done value : Routine ε α).Brief limit := by
  cases limit <;> trivial

theorem fail (error : ε) : (Routine.fail error : Routine ε α).Brief limit := by
  cases limit <;> trivial

theorem perform_bind {action : Action} {f : action.Answer → Routine ε β}
    (hf : ∀ answer, (f answer).Brief limit) :
    (Routine.perform action >>= f).Brief (limit + 1) :=
  hf

theorem mono {p : Routine ε α} (h : p.Brief limit) (more : Nat) : p.Brief (limit + more) := by
  induction p generalizing limit with
  | done value => exact done value
  | fail error => exact fail error
  | act action next ih =>
      cases limit with
      | zero => exact h.elim
      | succ limit =>
          rw [Nat.succ_add]
          exact fun answer => ih answer (h answer)

theorem bind {p : Routine ε α} {f : α → Routine ε β} {further : Nat} (hp : p.Brief limit)
    (hf : ∀ value, (f value).Brief further) : (p >>= f).Brief (limit + further) := by
  change (p.bind f).Brief (limit + further)
  induction p generalizing limit with
  | done value =>
      rw [Nat.add_comm]
      exact (hf value).mono limit
  | fail error => exact fail error
  | act action next ih =>
      cases limit with
      | zero => exact hp.elim
      | succ limit =>
          rw [Nat.succ_add]
          exact fun answer => ih answer (hp answer)

end Brief

/-! ## Failing on an answer -/

/-- On a fatal answer the routine fails at once, and it fails on no other; what it returns is as
required. -/
def FailsOn (fatal : (action : Action) → action.Answer → Bool) (returns : α → Prop) :
    Routine ε α → Prop
  | done value => returns value
  | fail _ => False
  | act action next => ∀ answer,
    match fatal action answer with
    | true => ∃ error, next answer = fail error
    | false => (next answer).FailsOn fatal returns

variable {fatal : (action : Action) → action.Answer → Bool}

namespace FailsOn

variable {action : Action} {f : action.Answer → Routine ε β} {returns : β → Prop}

theorem perform_bind
    (h : ∀ answer,
      match fatal action answer with
      | true => ∃ error, f answer = fail error
      | false => (f answer).FailsOn fatal returns) :
    (perform action >>= f).FailsOn fatal returns :=
  h

theorem perform_bind_of_safe (hsafe : ∀ answer, fatal action answer = false)
    (hf : ∀ answer, (f answer).FailsOn fatal returns) :
    (perform action >>= f).FailsOn fatal returns := by
  refine perform_bind fun answer => ?_
  rw [hsafe answer]
  exact hf answer

theorem bind {p : Routine ε α} {f : α → Routine ε β} {middle : α → Prop}
    (hp : p.FailsOn fatal middle) (hf : ∀ value, middle value → (f value).FailsOn fatal returns) :
    (p >>= f).FailsOn fatal returns := by
  change (p.bind f).FailsOn fatal returns
  induction p with
  | done value => exact hf value hp
  | fail error => exact hp.elim
  | act action next ih =>
      intro answer
      have hnext := hp answer
      cases hfatal : fatal action answer with
      | false =>
          rw [hfatal] at hnext
          exact ih answer hnext
      | true =>
          rw [hfatal] at hnext
          obtain ⟨error, herror⟩ := hnext
          exact ⟨error, congrArg (fun rest => rest.bind f) herror⟩

end FailsOn

/-- What is left of a routine: nothing but its failure, once a fatal answer has come. -/
def Stands (fatal : (action : Action) → action.Answer → Bool) (lost : Bool) (p : Routine ε α) :
    Prop :=
  match lost with
  | true => ∃ error, p = fail error
  | false => p.FailsOn fatal fun _ => True

namespace Stands

variable {lost : Bool}

theorem lost_of_fail {error : ε} (h : (fail error : Routine ε α).Stands fatal lost) :
    lost = true := by
  cases lost with
  | true => rfl
  | false => exact h.elim

theorem not_lost_of_done {value : α} (h : (done value : Routine ε α).Stands fatal lost) :
    lost = false := by
  cases lost with
  | true => exact nomatch h
  | false => rfl

theorem not_lost_of_act {action : Action} {next : action.Answer → Routine ε α}
    (h : (act action next).Stands fatal lost) : lost = false := by
  cases lost with
  | true => exact nomatch h
  | false => rfl

theorem next {action : Action} {next : action.Answer → Routine ε α}
    (h : (act action next).Stands fatal lost) (answer : action.Answer) :
    (next answer).Stands fatal (fatal action answer) := by
  obtain rfl := h.not_lost_of_act
  exact h answer

end Stands

/-! ## Reliability -/

/-- The answer is not that a sending failed. -/
def Granted : (action : Action) → action.Answer → Prop
  | .transmit _, answer => Except.isOk answer = true
  | _, _ => True

/-- The routine fails only if a sending does. -/
def Sure : Routine ε α → Prop
  | done _ => True
  | fail _ => False
  | act action next => ∀ answer, Granted action answer → (next answer).Sure

/-- A routine fails only if a sending does if none of the answers that are fatal to it is another. -/
theorem FailsOn.sure {p : Routine ε α} {returns : α → Prop} (h : p.FailsOn fatal returns)
    (hgranted : ∀ action answer, Granted action answer → fatal action answer = false) :
    p.Sure := by
  induction p with
  | done value => trivial
  | fail error => exact h.elim
  | act action next ih =>
      intro answer hanswer
      have hnext := h answer
      rw [hgranted action answer hanswer] at hnext
      exact ih answer hnext

end Routine

end ChipChain
