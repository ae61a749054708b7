import ChipChain.Proofs.Routine.Run

/-!
# Routines put together from parts

A routine that is nothing but parts of some kinds, one after the other. What holds
of the parts and carries over to sequences holds of the routine, so a routine has to
be taken apart only once, whatever is asked of it.
-/

namespace ChipChain.Routine

variable {ε : Type}

/-- The routine consists of such parts, and of results and failures between them. -/
inductive Composed (Part : ∀ α : Type, Routine ε α → Prop) : ∀ {α : Type}, Routine ε α → Prop
  | part {α : Type} {p : Routine ε α} (h : Part α p) : Composed Part p
  | done {α : Type} (value : α) : Composed Part (done value)
  | fail {α : Type} (error : ε) : Composed Part (fail error : Routine ε α)
  | bind {α β : Type} {p : Routine ε α} {f : α → Routine ε β} (hp : Composed Part p)
      (hf : ∀ value, Composed Part (f value)) : Composed Part (p >>= f)

namespace Composed

variable {α : Type} {Part : ∀ α : Type, Routine ε α → Prop}

theorem ofExcept (outcome : Except ε α) : (Routine.ofExcept outcome).Composed Part := by
  cases outcome with
  | ok value => exact .done value
  | error error => exact .fail error

theorem forEach {f : α → Routine ε Unit} {xs : List α} (h : ∀ x ∈ xs, (f x).Composed Part) :
    (Routine.forEach xs f).Composed Part := by
  induction xs with
  | nil => exact .done ()
  | cons x rest ih =>
      obtain ⟨hx, hrest⟩ := List.forall_mem_cons.1 h
      exact .bind hx fun _ => ih hrest

theorem times {p : Routine ε Unit} (h : p.Composed Part) (count : Nat) :
    (Routine.times count p).Composed Part := by
  induction count with
  | zero => exact .done ()
  | succ count ih => exact .bind h fun _ => ih

theorem within {allowed : Action → Prop} {p : Routine ε α} (h : p.Composed Part)
    (hpart : ∀ {α : Type} {p : Routine ε α}, Part α p → p.Within allowed) : p.Within allowed := by
  induction h with
  | part hp => exact hpart hp
  | done value => trivial
  | fail error => trivial
  | bind _ _ ihp ihf => exact Within.bind ihp ihf

end Composed

end ChipChain.Routine
