import ChipChain.Proofs.Ramp.Plan
import ChipChain.Ramp.Transition

/-!
# Walks under observation

Transitions against a stepper that answers as it likes, with a record of what it
was asked, what it answered and where time passed. A single walk is described by
an inductive relation; what holds of a walk carries over to any sequence of
transitions, whatever the targets and the failures. The main statement is
`transitions_never_jump`.
-/

namespace ChipChain.Ramp

/-! ## The record of a transition -/

/-- One mark in the record of a transition. -/
inductive Mark where
  | rest (ms : Nat)
  | accepted (stop : Frequency)
  | refused (stop : Frequency) (e : ChainError)
  deriving DecidableEq, Repr

namespace Mark

/-- The mark that a stepper's answer leaves. -/
def ofAnswer (stop : Frequency) : Except ChainError Unit → Mark
  | .ok () => .accepted stop
  | .error e => .refused stop e

def accepted? : Mark → Option Frequency
  | .accepted stop => some stop
  | _ => none

def tried? : Mark → Option Frequency
  | .rest _ => none
  | .accepted stop => some stop
  | .refused stop _ => some stop

end Mark

/-- Answers each stop in view of everything that has happened in the transition so far. -/
abbrev Stepper := List Mark → Frequency → Except ChainError Unit

/-- The surroundings that ask a stepper and keep the record. -/
def recording (stepper : Stepper) : Surroundings (StateM (List Mark)) where
  note _ := pure ()
  rest ms := modify (· ++ [.rest ms])
  apply stop := do
    let answer := stepper (← get) stop
    modify (· ++ [Mark.ofAnswer stop answer])
    return answer

/-! ## One walk -/

/-- Stops tried in order with one rest after each that is not the last: the marks this leaves, and
how it ends. -/
inductive Walk (settle : Nat) : List Frequency → List Mark → Except ChainError Unit → Prop where
  | nothing : Walk settle [] [] (.ok ())
  | refused (stop : Frequency) (rest : List Frequency) (e : ChainError) :
      Walk settle (stop :: rest) [.refused stop e] (.error e)
  | last (stop : Frequency) : Walk settle [stop] [.accepted stop] (.ok ())
  | onward {rest : List Frequency} {marks : List Mark} {outcome : Except ChainError Unit}
      (stop : Frequency) (hne : rest ≠ []) (hrest : Walk settle rest marks outcome) :
      Walk settle (stop :: rest) (.accepted stop :: .rest settle :: marks) outcome

def acceptedStops (marks : List Mark) : List Frequency :=
  marks.filterMap Mark.accepted?

def triedStops (marks : List Mark) : List Frequency :=
  marks.filterMap Mark.tried?

def trials (marks : List Mark) : List Mark :=
  marks.filter fun mark => mark.tried?.isSome

theorem acceptedStops_onward (stop : Frequency) (ms : Nat) (marks : List Mark) :
    acceptedStops (.accepted stop :: .rest ms :: marks) = stop :: acceptedStops marks := rfl

theorem trials_onward (stop : Frequency) (ms : Nat) (marks : List Mark) :
    trials (.accepted stop :: .rest ms :: marks) = .accepted stop :: trials marks := rfl

section

variable {settle : Nat} {stops : List Frequency} {marks : List Mark}
  {outcome : Except ChainError Unit}

theorem Walk.acceptedStops_isPrefix (h : Walk settle stops marks outcome) :
    acceptedStops marks <+: stops := by
  induction h with
  | nothing => exact List.nil_prefix
  | refused stop rest e => exact List.nil_prefix
  | last stop => exact List.prefix_refl _
  | onward stop _ _ ih => exact List.cons_prefix_cons.2 ⟨rfl, ih⟩

theorem Walk.triedStops_isPrefix (h : Walk settle stops marks outcome) :
    triedStops marks <+: stops := by
  induction h with
  | nothing => exact List.nil_prefix
  | refused stop rest e => exact List.cons_prefix_cons.2 ⟨rfl, List.nil_prefix⟩
  | last stop => exact List.prefix_refl _
  | onward stop _ _ ih => exact List.cons_prefix_cons.2 ⟨rfl, ih⟩

theorem Walk.outcome_eq_ok_iff (h : Walk settle stops marks outcome) :
    outcome = .ok () ↔ acceptedStops marks = stops := by
  induction h with
  | nothing => exact ⟨fun _ => rfl, fun _ => rfl⟩
  | refused stop rest e => exact ⟨nofun, nofun⟩
  | last stop => exact ⟨fun _ => rfl, fun _ => rfl⟩
  | onward stop _ _ ih => exact ih.trans ⟨congrArg (stop :: ·), fun e => (List.cons.inj e).2⟩

theorem Walk.trials_eq_nil_iff (h : Walk settle stops marks outcome) :
    trials marks = [] ↔ stops = [] := by
  cases h <;> simp [trials, Mark.tried?]

/-- Rests stand between trials, one in each gap, and nowhere else. -/
theorem Walk.marks_eq_intersperse (h : Walk settle stops marks outcome) :
    marks = (trials marks).intersperse (.rest settle) := by
  induction h with
  | nothing => rfl
  | refused stop rest e => rfl
  | last stop => rfl
  | @onward rest marks outcome stop hne hrest ih =>
      obtain ⟨first, others, htrials⟩ :=
        List.exists_cons_of_ne_nil (mt hrest.trials_eq_nil_iff.1 hne)
      rw [trials_onward, htrials, List.intersperse_cons_cons, ← htrials, ← ih]

end

/-! ## Following stops -/

theorem run_follow_cons (stepper : Stepper) (ramp : Ramp) (stop : Frequency)
    (rest : List Frequency) (log : List Mark) :
    (follow (recording stepper) ramp (stop :: rest)).run log =
      match stepper log stop with
      | .error e => ((ramp, .error e), log ++ [.refused stop e])
      | .ok () =>
          if rest = [] then (({ ramp with current := stop }, .ok ()), log ++ [.accepted stop])
          else
            (follow (recording stepper) { ramp with current := stop } rest).run
              (log ++ [.accepted stop] ++ [.rest ramp.settle]) := by
  have happly : ((recording stepper).apply stop).run log =
      (stepper log stop, log ++ [Mark.ofAnswer stop (stepper log stop)]) := rfl
  rw [follow, StateT.run_bind, happly]
  cases stepper log stop with
  | error e => rfl
  | ok _ => cases rest <;> rfl

/-- Following stops in recording surroundings is a walk, and leaves the ramp at the last stop that
was applied. -/
theorem run_follow (stepper : Stepper) (ramp : Ramp) (stops : List Frequency) (log : List Mark) :
    ∃ marks outcome, Walk ramp.settle stops marks outcome ∧
      (follow (recording stepper) ramp stops).run log =
        (({ ramp with current := (acceptedStops marks).getLastD ramp.current }, outcome),
          log ++ marks) := by
  induction stops generalizing ramp log with
  | nil => exact ⟨[], .ok (), .nothing, by rw [List.append_nil]; rfl⟩
  | cons stop rest ih =>
      rw [run_follow_cons]
      cases stepper log stop with
      | error e => exact ⟨[.refused stop e], .error e, .refused stop rest e, rfl⟩
      | ok _ =>
          by_cases hrest : rest = []
          · rw [hrest]
            exact ⟨[.accepted stop], .ok (), .last stop, rfl⟩
          · obtain ⟨marks, outcome, hwalk, hrun⟩ :=
              ih { ramp with current := stop } (log ++ [.accepted stop] ++ [.rest ramp.settle])
            refine ⟨.accepted stop :: .rest ramp.settle :: marks, outcome,
              .onward stop hrest hwalk, ?_⟩
            dsimp only
            rw [if_neg hrest, hrun, acceptedStops_onward, List.getLastD_cons, List.append_assoc,
              List.append_assoc]
            rfl

/-! ## Transitions -/

/-- One transition, as it was recorded. -/
structure Passage where
  start : Ramp
  target : Frequency
  marks : List Mark
  outcome : Except ChainError Unit
  finish : Ramp

namespace Passage

def of (ramp : Ramp) (stepper : Stepper) (target : Frequency) : Passage :=
  let ((finish, outcome), marks) := (transition (recording stepper) ramp target).run []
  ⟨ramp, target, marks, outcome, finish⟩

def accepted (p : Passage) : List Frequency :=
  acceptedStops p.marks

/-- What is promised of every single transition. -/
structure Orderly (p : Passage) : Prop where
  tried : triedStops p.marks <+: p.start.plan p.target
  accepted : p.accepted <+: p.start.plan p.target
  aligned : ∀ stop ∈ p.accepted, p.start.step.hz ∣ stop.hz ∨ stop = p.target
  /-- One rest of the set length stands between consecutive trials, and none before the first or
  after the last. -/
  paced : p.marks = (trials p.marks).intersperse (.rest p.start.settle)
  complete : p.outcome = .ok () ↔ p.accepted = p.start.plan p.target
  /-- After a success the clock stands at the target, or no further from it than a kilohertz. -/
  arrived : p.outcome = .ok () →
    p.finish.current = p.target ∨ (p.finish.current.absDiff p.target).hz ≤ 1000
  standing : p.finish = { p.start with current := p.accepted.getLastD p.start.current }

end Passage

theorem run_transition (stepper : Stepper) (ramp : Ramp) (target : Frequency) :
    ∃ marks outcome, Walk ramp.settle (ramp.plan target) marks outcome ∧
      (transition (recording stepper) ramp target).run [] =
        (({ ramp with current := (acceptedStops marks).getLastD ramp.current }, outcome),
          marks) := by
  obtain ⟨marks, outcome, hwalk, hrun⟩ := run_follow stepper ramp (ramp.plan target) []
  refine ⟨marks, outcome, hwalk, ?_⟩
  unfold transition
  cases hplan : ramp.plan target with
  | nil =>
      rw [hplan] at hwalk
      cases hwalk
      rfl
  | cons stop rest =>
      have hnote : ∀ e, ((recording stepper).note e).run [] = ((), []) := fun _ => rfl
      rw [hplan] at hrun
      dsimp only
      rw [if_neg (by simp), StateT.run_bind, hnote]
      change (StateT.run (follow (recording stepper) ramp (stop :: rest) >>= _) []) = _
      rw [StateT.run_bind, hrun]
      cases outcome <;> rfl

/-- A transition against any stepper keeps every promise made of a single one. -/
theorem orderly_of (ramp : Ramp) (stepper : Stepper) (target : Frequency) :
    (Passage.of ramp stepper target).Orderly := by
  obtain ⟨marks, outcome, hwalk, hrun⟩ := run_transition stepper ramp target
  have hof : Passage.of ramp stepper target =
      ⟨ramp, target, marks, outcome,
        { ramp with current := (acceptedStops marks).getLastD ramp.current }⟩ := by
    rw [Passage.of, hrun]
  rw [hof]
  refine ⟨hwalk.triedStops_isPrefix, hwalk.acceptedStops_isPrefix, ?_, hwalk.marks_eq_intersperse,
    hwalk.outcome_eq_ok_iff, ?_, rfl⟩
  · intro stop hstop
    exact dvd_or_eq_of_mem_plan (hwalk.acceptedStops_isPrefix.subset hstop)
  · intro hok
    have hall : acceptedStops marks = ramp.plan target := hwalk.outcome_eq_ok_iff.1 hok
    dsimp only
    rw [hall]
    by_cases hnear : (ramp.current.absDiff target).hz ≤ tolerance.hz
    · rw [plan_eq_nil_iff.2 hnear]
      exact .inr hnear
    · rw [List.getLastD_eq_getLast?, getLast?_plan hnear]
      exact .inl rfl

theorem Passage.Orderly.hops {p : Passage} (h : p.Orderly) (hpos : 0 < p.start.step.hz) :
    List.IsChain (Hop p.start.step.hz) (p.start.current :: p.accepted) :=
  List.IsChain.prefix (plan_hops p.start p.target hpos) (List.cons_prefix_cons.2 ⟨rfl, h.accepted⟩)

/-! ## Sequences of transitions -/

/-- Transitions one after the other, each with its stepper and its target. -/
def passages (ramp : Ramp) : List (Stepper × Frequency) → List Passage
  | [] => []
  | (stepper, target) :: rest =>
      let p := Passage.of ramp stepper target
      p :: passages p.finish rest

theorem orderly_of_mem_passages {ramp : Ramp} {calls : List (Stepper × Frequency)} {p : Passage}
    (h : p ∈ passages ramp calls) : p.Orderly := by
  induction calls generalizing ramp with
  | nil => exact absurd h List.not_mem_nil
  | cons call rest ih =>
      rcases List.mem_cons.1 h with rfl | h
      · exact orderly_of ramp call.1 call.2
      · exact ih h

theorem getLastD_append {α : Type} (l l' : List α) (a : α) :
    (l ++ l').getLastD a = l'.getLastD (l.getLastD a) := by
  induction l generalizing a with
  | nil => rfl
  | cons b l ih => rw [List.cons_append, List.getLastD_cons, List.getLastD_cons, ih]

theorem isChain_append_of_getLastD {α : Type} {R : α → α → Prop} {a : α} {l l' : List α}
    (h : List.IsChain R (a :: l)) (h' : List.IsChain R (l.getLastD a :: l')) :
    List.IsChain R (a :: (l ++ l')) := by
  induction l generalizing a with
  | nil => exact h'
  | cons b l ih =>
      rw [List.getLastD_cons] at h'
      obtain ⟨hab, hb⟩ := List.isChain_cons_cons.1 h
      exact List.isChain_cons_cons.2 ⟨hab, ih hb h'⟩

/-- After some transitions the ramp stands at the stop that was applied last in any of them. -/
theorem current_finish {ramp : Ramp} {calls : List (Stepper × Frequency)}
    {before after : List Passage} {p : Passage} (h : passages ramp calls = before ++ p :: after) :
    p.finish.current = ((before ++ [p]).flatMap Passage.accepted).getLastD ramp.current := by
  induction calls generalizing ramp before with
  | nil => simp [passages] at h
  | cons call rest ih =>
      have hfinish := (orderly_of ramp call.1 call.2).standing
      cases before with
      | nil =>
          obtain ⟨rfl, -⟩ := List.cons.inj h
          rw [hfinish, List.nil_append, List.flatMap_cons, List.flatMap_nil, List.append_nil]
          rfl
      | cons q before =>
          obtain ⟨rfl, hrest⟩ := List.cons.inj h
          rw [ih hrest, hfinish, List.cons_append, List.flatMap_cons, getLastD_append]
          rfl

theorem passages_hops {ramp : Ramp} (hpos : 0 < ramp.step.hz)
    (calls : List (Stepper × Frequency)) :
    List.IsChain (Hop ramp.step.hz)
      (ramp.current :: (passages ramp calls).flatMap Passage.accepted) := by
  induction calls generalizing ramp with
  | nil => exact List.isChain_singleton _
  | cons call rest ih =>
      have hfirst := orderly_of ramp call.1 call.2
      have hstep : (Passage.of ramp call.1 call.2).finish.step = ramp.step := by
        rw [hfirst.standing]
        rfl
      have hcurrent : (Passage.of ramp call.1 call.2).finish.current =
          (Passage.of ramp call.1 call.2).accepted.getLastD ramp.current := by
        rw [hfirst.standing]
        rfl
      have hrest := ih (hstep ▸ hpos)
      rw [hstep, hcurrent] at hrest
      rw [passages, List.flatMap_cons]
      exact isChain_append_of_getLastD (hfirst.hops hpos) hrest

/-- However the transitions are chosen and however they fail: the frequencies that were applied,
counted from the first, never lie more than a step apart; the ramp always stands at the last of
them; and every transition is orderly. -/
theorem transitions_never_jump (ramp : Ramp) (hpos : 0 < ramp.step.hz)
    (calls : List (Stepper × Frequency)) :
    List.IsChain (Hop ramp.step.hz)
      (ramp.current :: (passages ramp calls).flatMap Passage.accepted) ∧
    (∀ before p after, passages ramp calls = before ++ p :: after →
      p.finish.current = ((before ++ [p]).flatMap Passage.accepted).getLastD ramp.current) ∧
    ∀ p ∈ passages ramp calls, p.Orderly :=
  ⟨passages_hops hpos calls, fun _ _ _ => current_finish, fun _ => orderly_of_mem_passages⟩

/-- The stepper that applies every stop but one. -/
def refusing (stop : Frequency) : Stepper :=
  fun _ f => if f = stop then .error (.noDividers f) else .ok ()

/-- From boot a climb breaks off before its second stop, and the way down starts where it broke
off. -/
theorem transitions_never_jump_after_failure :
    0 < boot.step.hz ∧
      (passages boot [(refusing (.ofKhz 68750), .ofKhz 75000), (refusing ⟨0⟩, .ofKhz 50000)]).flatMap
        Passage.accepted = [.ofKhz 62500, .ofKhz 56250, .ofKhz 50000] ∧
      List.IsChain (Hop boot.step.hz)
        (boot.current ::
          (passages boot
            [(refusing (.ofKhz 68750), .ofKhz 75000), (refusing ⟨0⟩, .ofKhz 50000)]).flatMap
          Passage.accepted) :=
  ⟨by decide, by decide +kernel, (transitions_never_jump boot (by decide) _).1⟩

end ChipChain.Ramp
