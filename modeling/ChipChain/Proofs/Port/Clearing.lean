import ChipChain.Port.Prompt
import ChipChain.Proofs.Port.Stream

/-!
# What clearing leaves

The owner clears in two steps: it throws away the chunks and what it kept, and then
it asks the pump to clear the port's own input. In between the pump may have a chunk
in hand, or read one, and what it passes on after the first step survives the second.
The main statement `returned_after_clearing` says that nothing else does;
`held_chunk_is_returned` is a port that gives out a byte from before it was cleared.
-/

namespace ChipChain.Port

open scoped List

variable {p q : Port} {m : Move} {moves : List Move} {outcomes : List Outcome}

/-! ## What is left is a part of what was there -/

/-- Everything that comes in at the port in a run. -/
def arrivals (moves : List Move) : Bytes :=
  moves.flatMap Move.arrival

theorem unread_eq (p : Port) : p.unread = p.queued ++ p.arrived := by
  unfold unread queued forwarded
  cases p.pump <;> rfl

theorem queued_of_discards (h : p.move m = some (outcomes, q)) (hm : m.discards = true) :
    outcomes = [] ∧ q.queued <+ p.queued ∧ q.arrived = p.arrived := by
  cases m with
  | startDiscarding =>
      simp only [move, Option.ite_none_right_eq_some] at h
      obtain ⟨-, h⟩ := h
      cases h
      exact ⟨rfl, List.Sublist.refl _, rfl⟩
  | discard =>
      simp only [move] at h
      split at h
      next chunk chunks hhold hchunks =>
        cases h
        refine ⟨rfl, ?_, rfl⟩
        simp only [queued, forwarded, hchunks, List.flatten_cons]
        exact ((List.sublist_append_right chunk _).append_left p.pending).append_right _
      next => cases h
  | endDiscarding =>
      simp only [move, Option.ite_none_right_eq_some] at h
      obtain ⟨⟨-, hchunks⟩, h⟩ := h
      cases h
      refine ⟨rfl, ?_, rfl⟩
      simp only [queued, forwarded, hchunks, List.flatten_nil, List.append_nil]
      exact List.sublist_append_right _ _
  | _ => cases hm

/-- What a move hands out and leaves, place by place, was there before, or has come in with it. -/
theorem sublists_of_move (h : p.move m = some (outcomes, q)) :
    returned outcomes ++ q.queued <+ p.queued ++ p.intake m ∧
      p.intake m ++ q.arrived <+ p.arrived ++ m.arrival := by
  cases hdiscards : m.discards with
  | true =>
      obtain ⟨rfl, hqueued, harrived⟩ := queued_of_discards h hdiscards
      have hnone : p.intake m = [] := by cases m <;> first | rfl | cases hdiscards
      rw [hnone, List.append_nil, harrived]
      exact ⟨hqueued, List.sublist_append_left _ _⟩
  | false =>
  cases hends : m.endsCall with
  | true =>
      have hnone : p.intake m = [] := by cases m <;> first | rfl | cases hends
      rw [hnone, List.append_nil]
      cases ending_of_move h hends with
      | full | last | late =>
          rw [queued_handOut]
          exact ⟨List.Sublist.refl _, List.sublist_append_left _ _⟩
      | drained | cancelled => exact ⟨List.Sublist.refl _, List.sublist_append_left _ _⟩
  | false =>
      have hon := onward_of_move h hends hdiscards
      rw [returned_of_silent hon.silent, hon.queue]
      exact ⟨List.Sublist.refl _, hon.input⟩

theorem queued_sublist_of_run (h : p.run moves = some (outcomes, q)) :
    returned outcomes ++ q.queued <+ p.queued ++ p.stream moves := by
  induction moves generalizing p outcomes with
  | nil =>
      cases h
      exact List.sublist_append_left _ _
  | cons m rest ih =>
      obtain ⟨first, r, more, hm, hr, rfl⟩ := run_cons_eq_some h
      have hfirst := (sublists_of_move hm).1
      have hmore := ih hr
      rw [returned_append, List.append_assoc, stream, hm, ← List.append_assoc p.queued]
      refine (hmore.append_left (returned first)).trans ?_
      rw [← List.append_assoc]
      exact hfirst.append_right _

theorem unread_sublist_of_run (h : p.run moves = some (outcomes, q)) :
    returned outcomes ++ q.unread <+ p.unread ++ arrivals moves := by
  induction moves generalizing p outcomes with
  | nil =>
      cases h
      exact List.sublist_append_left _ _
  | cons m rest ih =>
      obtain ⟨first, r, more, hm, hr, rfl⟩ := run_cons_eq_some h
      obtain ⟨hqueued, harrived⟩ := sublists_of_move hm
      have hfirst : returned first ++ r.unread <+ p.unread ++ m.arrival := by
        rw [unread_eq, unread_eq, ← List.append_assoc, List.append_assoc p.queued]
        refine (hqueued.append_right r.arrived).trans ?_
        rw [List.append_assoc]
        exact harrived.append_left p.queued
      have hmore := ih hr
      have harrivals : arrivals (m :: rest) = m.arrival ++ arrivals rest := List.flatMap_cons
      rw [returned_append, List.append_assoc, harrivals, ← List.append_assoc p.unread]
      refine (hmore.append_left (returned first)).trans ?_
      rw [← List.append_assoc]
      exact hfirst.append_right _

/-! ## Clearing -/

theorem queued_of_endDiscarding (h : p.move .endDiscarding = some (outcomes, q)) :
    q.queued = p.pump.held := by
  simp only [move, Option.ite_none_right_eq_some] at h
  obtain ⟨⟨-, hchunks⟩, h⟩ := h
  cases h
  simp [queued, forwarded, hchunks]

theorem unread_of_clearInput
    (h : p.move (.serve none) = some ([.answered .clearInput (.ok ())], q)) :
    q.unread = p.queued := by
  simp only [move] at h
  split at h
  next request requests hpump hrequests =>
    simp only [Option.some.injEq, Prod.mk.injEq, List.cons.injEq, Outcome.answered.injEq] at h
    obtain ⟨⟨⟨rfl, -⟩, -⟩, rfl⟩ := h
    simp [unread, queued, forwarded, apply, hpump, Pump.held]
  next => cases h

/-- The owner is done throwing bytes away, and later the pump tells it that the port is cleared.
From then on calls return a part of these, in this order: the chunk that the pump had in hand when
the owner was done, what the pump has read from then until it cleared the port, and what arrives after
that. All else that had arrived is gone. -/
theorem returned_after_clearing {drained cleared before : Port} {window later : List Move}
    {first second third : List Outcome} (hdrained : p.move .endDiscarding = some (first, drained))
    (hwindow : drained.run window = some (second, before))
    (hcleared : before.move (.serve none) = some ([.answered .clearInput (.ok ())], cleared))
    (hlater : cleared.run later = some (third, q)) :
    returned third ++ q.unread <+ p.pump.held ++ drained.stream window ++ arrivals later := by
  have hleft : before.queued <+ p.pump.held ++ drained.stream window := by
    have hrun := queued_sublist_of_run hwindow
    rw [queued_of_endDiscarding hdrained] at hrun
    exact (List.sublist_append_right _ _).trans hrun
  have hrun := unread_sublist_of_run hlater
  rw [unread_of_clearInput hcleared] at hrun
  exact hrun.trans (hleft.append_right _)

/-- A byte comes in while the pump has a request to clear the port, and the pump reads it first. -/
theorem returned_after_clearing_of_late_reading :
    ∃ p drained before cleared q : Port,
      p.move .endDiscarding = some ([], drained) ∧
      drained.run [.submit .clearInput, .read 1, .forward] = some ([], before) ∧
      before.move (.serve none) = some ([.answered .clearInput (.ok ())], cleared) ∧
      cleared.run [.arrive [8], .startReceiving 1, .take, .finish] =
        some ([.received (.ok [7])], q) ∧
      [7] ++ q.unread <+ [] ++ [7] ++ [8] := by
  let p : Port := { arrived := [7], hold := .discarding }
  let drained : Port := { arrived := [7] }
  let before : Port := { chunks := [[7]], requests := [.clearInput] }
  let cleared : Port := { before with requests := [] }
  have hdrained : p.move .endDiscarding = some ([], drained) := rfl
  have hwindow : drained.run [.submit .clearInput, .read 1, .forward] = some ([], before) := rfl
  have hcleared : before.move (.serve none) =
    some ([.answered .clearInput (.ok ())], cleared) := rfl
  have hlater : cleared.run [.arrive [8], .startReceiving 1, .take, .finish] =
    some ([.received (.ok [7])], { arrived := [8] }) := rfl
  exact ⟨p, drained, before, cleared, _, hdrained, hwindow, hcleared, hlater,
    returned_after_clearing hdrained hwindow hcleared hlater⟩

/-- Byte after byte is read and passed on, until there is no room for another chunk. -/
def overfull : List Move :=
  ((List.range chunkLimit).flatMap fun n => [.arrive [UInt8.ofNat n], .read 1, .forward]) ++
    [.arrive [64], .read 1]

set_option maxRecDepth 4000 in
/-- Of 65 bytes that have come in one by one, the last is returned after the port has been cleared
with success, although nothing has come in since the owner began. -/
theorem held_chunk_is_returned :
    ∃ full cleared q, run {} overfull = some ([], full) ∧
      full.run (discarding chunkLimit ++ [.submit .clearInput, .forward, .serve none]) =
        some ([.answered .clearInput (.ok ())], cleared) ∧
      cleared.run [.startReceiving 4, .take, .expire] = some ([.received (.ok [64])], q) :=
  ⟨_, _, _, rfl, rfl, rfl⟩

end ChipChain.Port
