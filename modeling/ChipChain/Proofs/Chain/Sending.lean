import ChipChain.Proofs.Chain.History

/-!
# What goes out

The frames on the wire, as one list. Sending a command puts its frame there or
fails and puts nothing there, nothing else sends, and nothing is ever taken
back.
-/

namespace ChipChain

def Line.frames (line : Line) : List Bytes :=
  line.sent.toList.map Prod.snd

theorem Line.sent_transmit (line : Line) (now : Nat) (frame : Bytes) :
    (line.transmit now frame).2.sent.toList =
      line.sent.toList ++ if (line.transmit now frame).1.isOk then [(now, frame)] else [] := by
  unfold transmit
  split
  · exact (List.append_nil _).symm
  · simp [Except.isOk, Except.toBool]
  · simp [Except.isOk, Except.toBool]

theorem Line.frames_transmit (line : Line) (now : Nat) (frame : Bytes) :
    (line.transmit now frame).2.frames =
      line.frames ++ if (line.transmit now frame).1.isOk then [frame] else [] := by
  rw [frames, sent_transmit, List.map_append, frames]
  split <;> rfl

def World.frames (w : World) : List Bytes :=
  w.line.frames

/-! ## Frames stay -/

theorem World.frames_perform_transmit (w : World) (frame : Bytes) :
    (w.perform (.transmit frame)).2.2.frames =
      w.frames ++ if Except.isOk (w.perform (.transmit frame)).1 then [frame] else [] :=
  w.line.frames_transmit w.clock frame

theorem World.sent_perform {action : Action} (h : ∀ frame, action ≠ .transmit frame)
    (w : World) : (w.perform action).2.2.line.sent = w.line.sent := by
  cases action with
  | transmit frame => exact absurd rfl (h frame)
  | flush =>
      change w.line.flush.2.sent = w.line.sent
      unfold Line.flush
      split <;> rfl
  | setBaud baud =>
      change (w.line.setBaud w.clock baud).2.sent = w.line.sent
      unfold Line.setBaud
      split <;> rfl
  | regulate volts =>
      obtain ⟨_, hperform⟩ := w.perform_regulate volts
      rw [hperform]
  | deliver found =>
      obtain ⟨_, hperform⟩ := w.perform_deliver found
      rw [hperform]
  | _ => rfl

theorem World.frames_perform {action : Action} (h : ∀ frame, action ≠ .transmit frame)
    (w : World) : (w.perform action).2.2.frames = w.frames := by
  rw [frames, Line.frames, sent_perform h]
  rfl

theorem World.frames_isPrefix_perform (w : World) (action : Action) :
    w.frames <+: (w.perform action).2.2.frames := by
  by_cases h : ∃ frame, action = .transmit frame
  · obtain ⟨frame, rfl⟩ := h
    rw [frames_perform_transmit]
    exact List.prefix_append ..
  · have hsame := frames_perform (fun frame heq => h ⟨frame, heq⟩) w
    simp [hsame]

theorem Routine.frames_isPrefix_run {ε α : Type} (p : Routine ε α) (w : World) :
    w.frames <+: (p.run w).2.frames := by
  induction p generalizing w with
  | done value => exact List.prefix_refl _
  | fail error => exact List.prefix_refl _
  | act action next ih =>
      have hstep := w.frames_isPrefix_perform action
      exact hstep.trans (ih (w.perform action).1 (World.after _ (w.perform action).2.1))

namespace Driver

theorem frames_isPrefix_serve (d : Driver) (w : World) (incident : Incident) :
    w.frames <+: (d.serve w incident).2.frames := by
  cases incident with
  | invalidate => exact List.prefix_refl _
  | invalidateAll => exact List.prefix_refl _
  | rearrange => exact List.prefix_refl _
  | _ => exact Routine.frames_isPrefix_run ..

theorem frames_isPrefix_serveAll (d : Driver) (w : World) (incidents : List Incident) :
    w.frames <+: (d.serveAll w incidents).2.frames := by
  induction incidents generalizing w with
  | nil => exact List.prefix_refl _
  | cons incident rest ih => exact (d.frames_isPrefix_serve w incident).trans (ih _)

end Driver

/-! ## Sending a command -/

namespace Bus

/-- What sending a command tells, and what it leaves of the link. -/
theorem run_send (c : Command) (w : World) :
    ∃ journal, (send c).run w =
      match c.oversized? with
      | some e => (.error (.encoding e), w)
      | none =>
        ((w.line.transmit w.clock c.frame).1.mapError ChainError.link,
          { w with line := (w.line.transmit w.clock c.frame).2, journal }) := by
  unfold send
  rw [Command.encode_nil]
  cases c.oversized? with
  | some e => exact ⟨#[], rfl⟩
  | none =>
      refine ⟨w.journal.push ⟨.trace, source, "Frame", [("tx", Bytes.toHex c.frame)]⟩, ?_⟩
      dsimp only
      rw [Routine.run_note_bind, Routine.run_transmit_bind]
      cases (w.line.transmit w.clock c.frame).1 <;> rfl

theorem frames_send (c : Command) (w : World) :
    ((send c).run w).2.frames =
      w.frames ++ if ((send c).run w).1.isOk then [c.frame] else [] := by
  obtain ⟨journal, hrun⟩ := run_send c w
  rw [hrun]
  cases c.oversized? with
  | some e => exact (List.append_nil _).symm
  | none =>
      have hsent := w.line.frames_transmit w.clock c.frame
      dsimp only
      cases hanswer : (w.line.transmit w.clock c.frame).1 with
      | ok _ =>
          rw [hanswer] at hsent
          exact hsent
      | error e =>
          rw [hanswer] at hsent
          exact hsent

end Bus

/-! ## Sending a job -/

namespace Model

def payload : Model → Job → UInt8 → Bytes
  | .bm1397 => Job.midstatePayload
  | _ => Job.rollingPayload

theorem fits_payload (model : Model) (job : Job) (id : UInt8) :
    (Command.job (model.payload job id)).Fits := by
  cases model <;>
    simp [Command.Fits, Command.maxPayload, payload, Job.midstatePayload, Job.rollingPayload,
      Bytes.ofUInt32LE, midstateSlots]

/-- The frame that carries a job under an identifier. -/
def jobFrame (model : Model) (job : Job) (id : UInt8) : Bytes :=
  (Command.job (model.payload job id)).frame

theorem sendWork_eq (model : Model) :
    ∃ source, model.driver.sendWork = Driver.dispatch source Bus.send model.payload := by
  cases model with
  | bm1397 => exact ⟨Midstate.source, rfl⟩
  | _ => exact ⟨Rolling.source, rfl⟩

end Model

theorem Driver.frames_dispatch (source : String) (payload : Job → UInt8 → Bytes) (job : Job)
    (w : World) :
    match (dispatch source Bus.send payload job).run w with
    | (.ok id, after) =>
      id = w.ledger.ids.next.1 ∧ after.frames = w.frames ++ [(Command.job (payload job id)).frame]
    | (.error _, after) => after.frames = w.frames := by
  let id := w.ledger.ids.next.1
  let w' := { w with ledger := w.ledger.issue job }.record
    ⟨.trace, source, "Sending job", [("job_id", toString id)]⟩
  have hrun : (dispatch source Bus.send payload job).run w =
      (Bus.send (.job (payload job id)) >>= fun _ => pure id).run w' := rfl
  have hsent := Bus.frames_send (.job (payload job id)) w'
  rw [hrun, Routine.run_bind]
  cases hsend : (Bus.send (.job (payload job id))).run w' with
  | mk outcome after =>
      rw [hsend] at hsent
      cases outcome with
      | ok _ => exact ⟨rfl, hsent⟩
      | error e => exact hsent.trans (List.append_nil _)

/-- The host is told of a job's identifier exactly if the job's frame went out. -/
theorem Model.frames_sendWork (model : Model) (job : Job) (w : World) :
    match (model.driver.sendWork job).run w with
    | (.ok id, after) =>
      id = w.ledger.ids.next.1 ∧ after.frames = w.frames ++ [model.jobFrame job id]
    | (.error _, after) => after.frames = w.frames := by
  obtain ⟨source, hsendWork⟩ := model.sendWork_eq
  rw [hsendWork]
  exact Driver.frames_dispatch source model.payload job w

end ChipChain
