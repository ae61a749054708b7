import ChipChain.Routine.World

/-!
# Running routines

One law for each way in which routines are put together, and the frame rule: a
part of the world that none of a routine's actions touches is the same after
the run.
-/

namespace ChipChain

/-! ## What may be refused -/

namespace World

theorem perform_regulate (w : World) (request : Single) :
    ∃ volts, (w.perform (.regulate request)).2.2 = { w with volts } := by
  rcases w with ⟨clock, line, ledger, ramp, journal, settings, regulator, volts, consumer, found⟩
  cases regulator <;> exact ⟨_, rfl⟩

theorem perform_deliver (w : World) (result : Found) :
    ∃ found, (w.perform (.deliver result)).2.2 = { w with found } := by
  rcases w with ⟨clock, line, ledger, ramp, journal, settings, regulator, volts, consumer, found⟩
  cases consumer <;> exact ⟨_, rfl⟩

end World

namespace Routine

variable {ε δ α β : Type}

/-! ## Laws of runs -/

theorem run_bind (p : Routine ε α) (f : α → Routine ε β) (w : World) :
    (p >>= f).run w =
      match p.run w with
      | (.ok value, w) => (f value).run w
      | (.error error, w) => (.error error, w) := by
  change (p.bind f).run w = _
  induction p generalizing w with
  | done value => rfl
  | fail error => rfl
  | act action next ih => exact ih _ _

theorem run_bind_eq_ok {p : Routine ε α} {f : α → Routine ε β} {w after : World} {value : β}
    (h : (p >>= f).run w = (.ok value, after)) :
    ∃ first between, p.run w = (.ok first, between) ∧
      (f first).run between = (.ok value, after) := by
  rw [run_bind] at h
  split at h
  case h_1 first between hfirst => exact ⟨first, between, hfirst, h⟩
  case h_2 => cases h

theorem run_mapError_eq_ok {p : Routine ε α} {f : ε → δ} {w after : World} {value : α}
    (h : (p.mapError f).run w = (.ok value, after)) : p.run w = (.ok value, after) := by
  induction p generalizing w with
  | done result =>
      cases h
      rfl
  | fail error => cases h
  | act action next ih => exact ih _ h

theorem run_note_bind (entry : Entry) (f : Unit → Routine ε α) (w : World) :
    (note entry >>= f).run w =
      (f ()).run { w with journal := w.journal.push entry } := rfl

theorem run_transmit_bind (frame : Bytes) (f : Except LinkError Unit → Routine ε α) (w : World) :
    (transmit frame >>= f).run w =
      (f (w.line.transmit w.clock frame).1).run
        { w with line := (w.line.transmit w.clock frame).2 } := rfl

theorem run_collect_bind (capacity window : Nat) (f : Series → Routine ε α) (w : World) :
    (collect capacity window >>= f).run w =
      (f (Line.collect capacity window w.line.replies).1).run
        { w.after (Line.collect capacity window w.line.replies).2.1 with
          line := { w.line with
            replies := (Line.collect capacity window w.line.replies).2.2 } } := rfl

theorem run_flush_bind (f : Except LinkError Unit → Routine ε α) (w : World) :
    (flush >>= f).run w = (f w.line.flush.1).run { w with line := w.line.flush.2 } := rfl

theorem run_lookUp_bind (id : UInt8) (f : Option Job → Routine ε α) (w : World) :
    (lookUp id >>= f).run w = (f (w.ledger.jobs.get? id)).run w := rfl

theorem run_screen_bind (nonce : UInt32) (f : Bool → Routine ε α) (w : World) :
    (screen nonce >>= f).run w =
      (f (w.ledger.repeats.accept nonce).1).run
        { w with ledger := { w.ledger with repeats := (w.ledger.repeats.accept nonce).2 } } := rfl

/-! ## The frame rule -/

/-- Whatever it is answered, the routine performs allowed actions only. -/
def Within (allowed : Action → Prop) : Routine ε α → Prop
  | done _ => True
  | fail _ => True
  | act action next => allowed action ∧ ∀ answer, (next answer).Within allowed

namespace Within

variable {allowed : Action → Prop}

theorem mono {allowed' : Action → Prop} {p : Routine ε α} (h : p.Within allowed)
    (hsub : ∀ action, allowed action → allowed' action) : p.Within allowed' := by
  induction p with
  | done value => trivial
  | fail error => trivial
  | act action next ih => exact ⟨hsub action h.1, fun answer => ih answer (h.2 answer)⟩

theorem perform {action : Action} (h : allowed action) :
    (Routine.perform action : Routine ε action.Answer).Within allowed :=
  ⟨h, fun _ => trivial⟩

theorem bind {p : Routine ε α} {f : α → Routine ε β} (hp : p.Within allowed)
    (hf : ∀ value, (f value).Within allowed) : (p >>= f).Within allowed := by
  change (p.bind f).Within allowed
  induction p with
  | done value => exact hf value
  | fail error => trivial
  | act action next ih => exact ⟨hp.1, fun answer => ih answer (hp.2 answer)⟩

theorem perform_bind {action : Action} {f : action.Answer → Routine ε β} (h : allowed action)
    (hf : ∀ answer, (f answer).Within allowed) :
    (Routine.perform action >>= f).Within allowed :=
  bind (perform h) hf

theorem attempt {p : Routine ε α} (h : p.Within allowed) :
    (p.attempt : Routine δ (Except ε α)).Within allowed := by
  induction p with
  | done value => trivial
  | fail error => trivial
  | act action next ih => exact ⟨h.1, fun answer => ih answer (h.2 answer)⟩

theorem ofExcept (outcome : Except ε α) : (Routine.ofExcept outcome).Within allowed := by
  cases outcome <;> trivial

theorem times {p : Routine ε Unit} (h : p.Within allowed) (count : Nat) :
    (Routine.times count p).Within allowed := by
  induction count with
  | zero => trivial
  | succ count ih => exact bind h fun _ => ih

/-- What no allowed action changes, and time does not change either, is the same after the run. -/
theorem view_run {γ : Type} (view : World → γ) {p : Routine ε α} (h : p.Within allowed)
    (hstep : ∀ action, allowed action → ∀ w : World, view (w.perform action).2.2 = view w)
    (hafter : ∀ (w : World) ms, view (w.after ms) = view w) (w : World) :
    view (p.run w).2 = view w := by
  induction p generalizing w with
  | done value => rfl
  | fail error => rfl
  | act action next ih =>
      have hrest := ih (w.perform action).1 (h.2 _)
        ((w.perform action).2.2.after (w.perform action).2.1)
      rw [hafter, hstep action h.1] at hrest
      exact hrest

end Within

/-- No routine writes settings. -/
theorem run_settings (p : Routine ε α) (w : World) :
    (p.run w).2.settings = w.settings := by
  have hany : p.Within fun _ => True := by
    induction p with
    | done value => trivial
    | fail error => trivial
    | act action next ih => exact ⟨trivial, ih⟩
  refine Within.view_run World.settings hany (fun action _ w => ?_) (fun _ _ => rfl) w
  cases action with
  | regulate request =>
      obtain ⟨volts, hworld⟩ := w.perform_regulate request
      rw [hworld]
  | deliver result =>
      obtain ⟨found, hworld⟩ := w.perform_deliver result
      rw [hworld]
  | _ => rfl

end Routine

end ChipChain
