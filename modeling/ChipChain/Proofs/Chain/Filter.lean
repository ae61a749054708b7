import ChipChain.Proofs.Chain.History

/-!
# The filter for results

What a reading tells the host, and what it leaves behind, in every state that a
driver can reach and whatever the link has in store. The main statement is
`readings_faithful`.
-/

namespace ChipChain

open Driver

namespace Model

/-- What is promised of one reading, given the results reported before it. -/
structure Faithful (model : Model) (reported : List Share) (w : World)
    (outcome : Except ChainError (Option Share)) (after : World) : Prop where
  /-- No byte is looked for where a frame has none. -/
  inRange : outcome ≠ .error .stubResponse
  failed : (∃ e, outcome = .error e) ↔ model.nextReply w = .error .disconnected
  /-- A result is an intact frame for a live job whose nonce is not that of the last result. -/
  found : ∀ share, outcome = .ok (some share) ↔
    ∃ received job, model.nextReply w = .ok received ∧
      Response.Intact received model.family.resultLength ∧
      w.ledger.jobs.get? (model.slot (Response.echo received)) = some job ∧
      reported.getLast?.map Share.nonce ≠ some (Response.nonce received) ∧
      share = ⟨model.slot (Response.echo received), Response.nonce received,
        model.versionOf received job, job⟩
  /-- Damage is answered by one flush. -/
  flushed : Bus.Damaged model.family.resultLength (model.nextReply w) →
    after.line = (Bus.taken model.family.resultLength w.line).flush.2
  unflushed : ¬ Bus.Damaged model.family.resultLength (model.nextReply w) →
    after.line = Bus.taken model.family.resultLength w.line
  jobs : after.ledger.jobs = w.ledger.jobs
  remembered : ∀ share, outcome = .ok (some share) → after.ledger.repeats = ⟨some share.nonce⟩
  unnoticed : (∀ share, outcome ≠ .ok (some share)) → after.ledger.repeats = w.ledger.repeats
  /-- Nothing else changes but the clock and the reports. -/
  rest : after =
    { w with
      clock := after.clock
      line := after.line
      journal := after.journal
      ledger := { w.ledger with repeats := after.ledger.repeats } }

theorem read_ledger (model : Model) (w : World) :
    (model.read w).ledger = { w.ledger with repeats := (model.read w).ledger.repeats } := by
  dsimp only [read]
  match model.judge w.ledger (model.nextReply w) with
  | .error _ => rfl
  | .ok none => rfl
  | .ok (some _) => rfl

theorem faithful_run (model : Model) {w : World} {step : UInt8} {count : Nat}
    {reported : List Share} (h : w.ledger.Records step count reported) :
    ∃ outcome after, model.driver.serve w .readShare = (.share outcome, after) ∧
      model.Faithful reported w outcome after := by
  obtain ⟨journal, hrun⟩ := model.run_readShare w
  refine ⟨model.judge w.ledger (model.nextReply w), { model.read w with journal }, ?_, ?_⟩
  · rw [serve, hrun]
  · refine ⟨judge_ne_stub _ _ _, judge_fails_iff _ _ _, ?_, ?_, ?_, ?_, ?_, ?_, ?_⟩
    · intro share
      rw [judge_eq_some_iff, h.repeats]
    · exact fun hdamaged => if_pos hdamaged
    · exact fun hsound => if_neg hsound
    · rw [read_ledger]
    · intro share hshare
      dsimp only [read]
      rw [hshare]
      rfl
    · intro hnone
      dsimp only [read]
      cases hjudge : model.judge w.ledger (model.nextReply w) with
      | error e => rfl
      | ok found =>
          cases found with
          | none => rfl
          | some share => exact absurd hjudge (hnone share)
    · let before : Ledger → World := fun ledger =>
        { w with clock := (model.read w).clock, line := (model.read w).line, journal, ledger }
      exact congrArg before (model.read_ledger w)

/-- In every state that a driver can reach, and whatever the link has in store, a reading keeps
every promise; and no two results reported one after the other have the same nonce. -/
theorem readings_faithful (model : Model) (w : World) (incidents : List Incident) :
    let (answers, reached) := model.driver.serveAll (model.anew w) incidents
    List.IsChain (· ≠ ·) ((shares answers).map Share.nonce) ∧
      ∃ outcome after, model.driver.serve reached .readShare = (.share outcome, after) ∧
        model.Faithful (shares answers) reached outcome after := by
  have hrecords := model.records_anew w incidents
  exact ⟨hrecords.distinct, model.faithful_run hrecords⟩

end Model

end ChipChain
