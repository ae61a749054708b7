import ChipChain.Proofs.Daemon.Parties

/-!
# What makes the parties fail

Of all that the reader can be answered, only that the port is gone makes it fail, and
of all that the dispatcher can be answered, only that a sending failed. After such an
answer neither does anything more.
-/

namespace ChipChain

open Routine

/-- The reader loses the chain when the port is gone, the dispatcher when a sending fails. -/
def Party.loses : Party → (action : Action) → action.Answer → Bool
  | .reader, .receive _ _, .error .disconnected => true
  | .dispatcher, .transmit _, .error _ => true
  | _, _, _ => false

theorem Party.reader_loses_receive {capacity window : Nat} {answer : Except LinkError Bytes} :
    Party.reader.loses (.receive capacity window) answer = true ↔
      answer = .error .disconnected := by
  constructor
  · intro h
    match answer with
    | .ok data => cases h
    | .error e =>
        cases e with
        | disconnected => rfl
        | _ => cases h
  · rintro rfl
    rfl

theorem Party.dispatcher_loses_transmit {frame : Bytes} {answer : Except LinkError Unit} :
    Party.dispatcher.loses (.transmit frame) answer = true ↔ ∃ e, answer = .error e := by
  constructor
  · intro h
    match answer with
    | .ok _ => cases h
    | .error e => exact ⟨e, rfl⟩
  · rintro ⟨e, rfl⟩
    rfl

namespace Bus

variable {length : Nat}

theorem discard_failsOn (frame : Bytes) (fault : ResponseFault) :
    (discard frame fault).FailsOn Party.reader.loses
      fun frame? => ∀ frame, frame? = some frame → Response.Intact frame length := by
  refine .perform_bind_of_safe (fun _ => rfl) fun _ => ?_
  refine .perform_bind_of_safe (fun _ => rfl) fun answer => ?_
  cases answer with
  | ok _ => exact nofun
  | error e => exact .perform_bind_of_safe (fun _ => rfl) fun _ => nofun

theorem sift_failsOn (h : 2 ≤ length) (frame : Bytes) :
    (sift length frame).FailsOn Party.reader.loses
      fun frame? => ∀ frame, frame? = some frame → Response.Intact frame length := by
  refine .perform_bind_of_safe (fun _ => rfl) fun _ => ?_
  cases hcheck : Response.check frame length with
  | ok _ =>
      rintro frame ⟨⟩
      exact hcheck
  | error fault =>
      cases fault with
      | stub => exact absurd hcheck (Response.check_ne_stub h)
      | _ => exact discard_failsOn frame _

/-- Of all that a reading can meet, only that the port is gone is a failure. -/
theorem receiveWork_failsOn (h : 2 ≤ length) :
    (receiveWork length).FailsOn Party.reader.loses
      fun frame? => ∀ frame, frame? = some frame → Response.Intact frame length := by
  refine .perform_bind fun reply => ?_
  match reply with
  | .error e =>
      cases e with
      | disconnected => exact ⟨_, rfl⟩
      | _ => exact .perform_bind_of_safe (fun _ => rfl) fun _ => nofun
  | .ok [] => exact .perform_bind_of_safe (fun _ => rfl) fun _ => nofun
  | .ok (first :: rest) => exact sift_failsOn h (first :: rest)

theorem read_failsOn (h : 2 ≤ length) {settleFrame : Bytes → Routine ChainError (Option Share)}
    (hsettle : ∀ frame, Response.Intact frame length →
      (settleFrame frame).FailsOn Party.reader.loses fun _ => True) :
    (do
      match ← receiveWork length with
      | none => return none
      | some frame => settleFrame frame : Routine ChainError (Option Share)).FailsOn
        Party.reader.loses fun _ => True := by
  refine .bind (receiveWork_failsOn h) fun frame? hintact => ?_
  cases frame? with
  | none => trivial
  | some frame => exact hsettle frame (hintact frame rfl)

end Bus

theorem Driver.settle_failsOn (source : String) (id : UInt8) (nonce : UInt32)
    (version : Job → UInt32) :
    (settle source id nonce version).FailsOn Party.reader.loses fun _ => True := by
  refine .perform_bind_of_safe (fun _ => rfl) fun job? => ?_
  cases job? with
  | none => exact .perform_bind_of_safe (fun _ => rfl) fun _ => trivial
  | some job =>
      refine .perform_bind_of_safe (fun _ => rfl) fun fresh => ?_
      cases fresh with
      | true => trivial
      | false => exact .perform_bind_of_safe (fun _ => rfl) fun _ => trivial

theorem Midstate.settleFrame_failsOn (frame : Bytes)
    (h : Response.Intact frame Model.bm1397.family.resultLength) :
    (settleFrame frame).FailsOn Party.reader.loses fun _ => True := by
  rw [settleFrame, read?_of_length h.length_eq]
  exact Driver.settle_failsOn _ _ _ _

theorem Rolling.settleFrame_failsOn (profile : RollingProfile) (frame : Bytes)
    (h : Response.Intact frame 11) :
    (settleFrame profile frame).FailsOn Party.reader.loses fun _ => True := by
  rw [settleFrame, read?_of_length h.length_eq]
  exact .perform_bind_of_safe (fun _ => rfl) fun _ => Driver.settle_failsOn _ _ _ _

theorem Model.readShare_failsOn (model : Model) :
    model.driver.readShare.FailsOn Party.reader.loses fun _ => True := by
  cases model with
  | bm1397 => exact Bus.read_failsOn (by decide) Midstate.settleFrame_failsOn
  | bm1366 => exact Bus.read_failsOn (by decide) (Rolling.settleFrame_failsOn .bm1366)
  | bm1368 => exact Bus.read_failsOn (by decide) (Rolling.settleFrame_failsOn .bm1368)
  | bm1370 => exact Bus.read_failsOn (by decide) (Rolling.settleFrame_failsOn .bm1370)

theorem Daemon.readOnce_failsOn (d : Daemon) :
    d.readOnce.FailsOn Party.reader.loses fun _ => True := by
  refine .bind d.settings.model.readShare_failsOn fun share? _ => ?_
  cases share? with
  | none => trivial
  | some share =>
      refine .perform_bind_of_safe (fun _ => rfl) fun _ => ?_
      refine .perform_bind_of_safe (fun _ => rfl) fun taken => ?_
      cases taken with
      | true => trivial
      | false => exact .perform_bind_of_safe (fun _ => rfl) fun _ => trivial

theorem Bus.send_failsOn {c : Command} (h : c.Fits) :
    (send c).FailsOn Party.dispatcher.loses fun _ => True := by
  unfold send
  rw [Command.encode_nil, Command.oversized?_of_fits h]
  refine .perform_bind_of_safe (fun _ => rfl) fun _ => ?_
  refine .perform_bind fun answer => ?_
  cases answer with
  | ok _ => trivial
  | error e => exact ⟨_, rfl⟩

theorem Model.sendWork_failsOn (model : Model) (job : Job) :
    (model.driver.sendWork job).FailsOn Party.dispatcher.loses fun _ => True := by
  obtain ⟨source, hsendWork⟩ := model.sendWork_eq
  rw [hsendWork]
  refine .perform_bind_of_safe (fun _ => rfl) fun id => ?_
  refine .perform_bind_of_safe (fun _ => rfl) fun _ => ?_
  refine .perform_bind_of_safe (fun _ => rfl) fun _ => ?_
  exact .bind (Bus.send_failsOn (model.fits_payload job id)) fun _ _ => trivial

theorem Daemon.handle_failsOn (d : Daemon) (message : WorkMessage) :
    (d.handle message).FailsOn Party.dispatcher.loses fun _ => True := by
  cases message with
  | work job =>
      refine .bind (d.settings.model.sendWork_failsOn job) fun id _ => ?_
      exact .perform_bind_of_safe (fun _ => rfl) fun _ => trivial
  | cleanJobs =>
      refine .perform_bind_of_safe (fun _ => rfl) fun _ => ?_
      refine .perform_bind_of_safe (fun _ => rfl) fun _ => ?_
      exact .perform_bind_of_safe (fun _ => rfl) fun _ => trivial

theorem Daemon.handle_sends_jobs (d : Daemon) (message : WorkMessage) :
    (d.handle message).Within fun action => ∀ frame, action = .transmit frame →
      ∃ job id, frame = d.settings.model.jobFrame job id := by
  refine (d.handle_obeys message).within ?_
  rintro e action hmay frame rfl
  obtain ⟨job, id, -, rfl⟩ := hmay
  exact ⟨job, id, rfl⟩

theorem Daemon.handle_sure (d : Daemon) (message : WorkMessage) : (d.handle message).Sure := by
  refine (d.handle_failsOn message).sure fun action answer hanswer => ?_
  cases action with
  | transmit frame =>
      match answer with
      | .ok _ => rfl
      | .error e => cases hanswer
  | _ => rfl

end ChipChain
