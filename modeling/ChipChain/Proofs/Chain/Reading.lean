import ChipChain.Chain.Controller
import ChipChain.Proofs.Routine.Run
import ChipChain.Proofs.Work.Ledger

/-!
# Reading one result

What a frame says, model by model, and what one reading of a result comes to:
its outcome, the state of the link, and the ledger are functions of the next
reply and of the ledger before. The main statement is `run_readShare`.
-/

namespace ChipChain

/-! ## What a frame says -/

namespace Response

/-- The frame passes the check for this length. -/
def Intact (frame : Bytes) (length : Nat) : Prop :=
  check frame length = .ok ()

instance (frame : Bytes) (length : Nat) : Decidable (Intact frame length) :=
  match h : check frame length with
  | .ok () => isTrue h
  | .error _ => isFalse fun hok => nomatch h.symm.trans hok

def nonce (frame : Bytes) : UInt32 :=
  Bytes.toUInt32LE (frame.getD 2 0) (frame.getD 3 0) (frame.getD 4 0) (frame.getD 5 0)

def echo (frame : Bytes) : UInt8 :=
  frame.getD 7 0

/-- The rolled version bits, where there are any. -/
def versionField (frame : Bytes) : UInt16 :=
  Bytes.toUInt16BE (frame.getD 8 0) (frame.getD 9 0)

theorem check_of_length_ne {frame : Bytes} {length : Nat} (h : frame.length ≠ length) :
    check frame length = .error (.length length frame.length) := by
  unfold check
  exact if_pos h

theorem Intact.length_eq {frame : Bytes} {length : Nat} (h : Intact frame length) :
    frame.length = length := by
  by_cases hlength : frame.length = length
  · exact hlength
  · exact nomatch (check_of_length_ne hlength).symm.trans h

theorem check_ne_stub {frame : Bytes} {length : Nat} (h : 2 ≤ length) :
    check frame length ≠ .error .stub := by
  by_cases hlength : frame.length = length
  · subst hlength
    match frame, h with
    | first :: second :: rest, _ =>
        unfold check
        rw [if_neg (not_not_intro rfl)]
        dsimp only
        split
        · exact nofun
        · split <;> exact nofun
  · rw [check_of_length_ne hlength]
    exact nofun

end Response

namespace Model

/-- The identifier that an echo stands for. -/
def slot : Model → UInt8 → UInt8
  | .bm1397, echo => echo &&& 0xfc
  | .bm1366, echo => echo &&& 0xf8
  | .bm1368, echo => (echo &&& 0xf0) >>> 1
  | .bm1370, echo => (echo &&& 0xf0) >>> 1

/-- A version that the chips make of a job's: so many steps under the job's mask, or with the bits
of a field set as well. -/
def rolled (model : Model) (job : Job) (steps : UInt8) (field : UInt16) : UInt32 :=
  match model with
  | .bm1397 =>
    (fun version => incrementMasked version job.versionMask)^[steps.toNat] job.version
  | _ => job.version ||| (field.toUInt32 <<< 13)

/-- The version that a frame says the chip hashed. -/
def versionOf (model : Model) (frame : Bytes) (job : Job) : UInt32 :=
  model.rolled job (Response.echo frame &&& 3) (Response.versionField frame)

/-- The result that a ledger makes of received bytes. -/
def share? (model : Model) (l : Ledger) (received : Bytes) : Option Share :=
  if Response.Intact received model.family.resultLength then
    l.share? (model.slot (Response.echo received)) (Response.nonce received)
      (model.versionOf received)
  else none

/-- The outcome of a reading that met this reply. -/
def judge (model : Model) (l : Ledger) :
    Except LinkError Bytes → Except ChainError (Option Share)
  | .error .disconnected => .error (.link .disconnected)
  | .error _ => .ok none
  | .ok received => .ok (model.share? l received)

theorem judge_ne_stub (model : Model) (l : Ledger) (reply : Except LinkError Bytes) :
    model.judge l reply ≠ .error .stubResponse := by
  cases reply with
  | error e => cases e <;> exact nofun
  | ok received => exact nofun

theorem judge_fails_iff (model : Model) (l : Ledger) (reply : Except LinkError Bytes) :
    (∃ e, model.judge l reply = .error e) ↔ reply = .error .disconnected := by
  cases reply with
  | error e =>
      cases e with
      | disconnected => exact ⟨fun _ => rfl, fun _ => ⟨_, rfl⟩⟩
      | _ => exact ⟨nofun, nofun⟩
  | ok received => exact ⟨nofun, nofun⟩

theorem judge_eq_some_iff {model : Model} {l : Ledger} {reply : Except LinkError Bytes}
    {share : Share} :
    model.judge l reply = .ok (some share) ↔
      ∃ received job, reply = .ok received ∧
        Response.Intact received model.family.resultLength ∧
        l.jobs.get? (model.slot (Response.echo received)) = some job ∧
        l.repeats.previous ≠ some (Response.nonce received) ∧
        share = ⟨model.slot (Response.echo received), Response.nonce received,
          model.versionOf received job, job⟩ := by
  cases reply with
  | error e => cases e <;> exact ⟨nofun, fun ⟨_, _, h, _⟩ => nomatch h⟩
  | ok received =>
      have hjudge : model.judge l (.ok received) = .ok (some share) ↔
          model.share? l received = some share := ⟨Except.ok.inj, congrArg Except.ok⟩
      rw [hjudge, share?]
      constructor
      · intro h
        split at h
        case isTrue hintact =>
          obtain ⟨job, hlive, hnew, rfl⟩ := Ledger.share?_eq_some_iff.1 h
          exact ⟨received, job, rfl, hintact, hlive, hnew, rfl⟩
        case isFalse => cases h
      · rintro ⟨_, job, hreceived, hintact, hlive, hnew, rfl⟩
        cases hreceived
        rw [if_pos hintact]
        exact Ledger.share?_eq_some_iff.2 ⟨job, hlive, hnew, rfl⟩

theorem ne_of_judge {model : Model} {l : Ledger} {reply : Except LinkError Bytes} {share : Share}
    (h : model.judge l reply = .ok (some share)) : l.repeats.previous ≠ some share.nonce := by
  obtain ⟨received, job, -, -, -, hnew, rfl⟩ := judge_eq_some_iff.1 h
  exact hnew

end Model

theorem Midstate.iterate_eq_versionAfter (job : Job) (count : Nat) :
    (fun version => incrementMasked version job.versionMask)^[count] job.version =
      versionAfter job count := by
  induction count with
  | zero => rfl
  | succ count ih => rw [Function.iterate_succ_apply', ih, versionAfter]

theorem Midstate.read?_of_length {frame : Bytes} (h : frame.length = family.resultLength) :
    ResultFields.read? frame =
      some ⟨Response.nonce frame, Model.bm1397.slot (Response.echo frame),
        Response.echo frame &&& 3⟩ := by
  match frame, h with
  | [_, _, _, _, _, _, _, _, _], _ => rfl

theorem Rolling.read?_of_length {frame : Bytes} (h : frame.length = 11) :
    ResultFields.read? frame =
      some ⟨Response.nonce frame, Response.echo frame, Response.versionField frame⟩ := by
  match frame, h with
  | [_, _, _, _, _, _, _, _, _, _, _], _ => rfl

/-! ## The link and the ledger -/

namespace Bus

/-- The reply that the next reading of a result meets. -/
def nextReply (length : Nat) (line : Line) : Except LinkError Bytes :=
  (Line.take length workWindow line.replies).1

def readingTime (length : Nat) (line : Line) : Nat :=
  (Line.take length workWindow line.replies).2.1

def taken (length : Nat) (line : Line) : Line :=
  { line with replies := (Line.take length workWindow line.replies).2.2 }

/-- Bytes have come in, and they are no intact frame. -/
def Damaged (length : Nat) (reply : Except LinkError Bytes) : Prop :=
  ∃ received, reply = .ok received ∧ received ≠ [] ∧ ¬ Response.Intact received length

instance (length : Nat) (reply : Except LinkError Bytes) : Decidable (Damaged length reply) :=
  match reply with
  | .error _ => isFalse (by rintro ⟨_, h, _⟩; cases h)
  | .ok received =>
    decidable_of_iff (received ≠ [] ∧ ¬ Response.Intact received length)
      ⟨fun h => ⟨received, rfl, h⟩, fun ⟨_, heq, h⟩ => Except.ok.inj heq ▸ h⟩

/-- The link after the reading: damage is answered by one flush. -/
def lineAfter (length : Nat) (line : Line) : Line :=
  if Damaged length (nextReply length line) then (taken length line).flush.2
  else taken length line

def frameIn (length : Nat) : Except LinkError Bytes → Except ChainError (Option Bytes)
  | .error .disconnected => .error (.link .disconnected)
  | .error _ => .ok none
  | .ok received => .ok (if Response.Intact received length then some received else none)

open Routine

theorem run_receive_bind (length : Nat)
    (f : Except LinkError Bytes → Routine ChainError (Option Bytes)) (w : World) :
    (receive length workWindow >>= f).run w =
      (f (nextReply length w.line)).run
        { w.after (readingTime length w.line) with line := taken length w.line } := rfl

theorem run_discard (frame : Bytes) (fault : ResponseFault) (w : World) :
    ∃ journal, (discard frame fault).run w =
      (.ok none, { w with line := w.line.flush.2, journal }) := by
  rw [discard, run_note_bind, run_flush_bind]
  cases w.line.flush.1 <;> exact ⟨_, rfl⟩

theorem run_sift_of_intact {length : Nat} {frame : Bytes} (h : Response.Intact frame length)
    (w : World) :
    ∃ journal, (sift length frame).run w = (.ok (some frame), { w with journal }) := by
  have hcheck : Response.check frame length = .ok () := h
  rw [sift, run_note_bind, hcheck]
  exact ⟨_, rfl⟩

theorem run_sift_of_not_intact {length : Nat} {frame : Bytes} (hlength : 2 ≤ length)
    (h : ¬ Response.Intact frame length) (w : World) :
    ∃ journal, (sift length frame).run w =
      (.ok none, { w with line := w.line.flush.2, journal }) := by
  rw [sift, run_note_bind]
  cases hcheck : Response.check frame length with
  | ok _ => exact absurd hcheck h
  | error fault =>
      -- The one fault that is not answered by a flush does not occur at this length.
      cases fault with
      | stub => exact absurd hcheck (Response.check_ne_stub hlength)
      | _ => exact run_discard frame _ _

theorem damaged_iff_of_ne_nil (length : Nat) {received : Bytes} (h : received ≠ []) :
    Damaged length (.ok received) ↔ ¬ Response.Intact received length := by
  constructor
  · rintro ⟨_, heq, -, hfault⟩
    exact Except.ok.inj heq ▸ hfault
  · intro hfault
    exact ⟨received, rfl, h, hfault⟩

theorem run_receiveWork {length : Nat} (h : 2 ≤ length) (w : World) :
    ∃ journal, (receiveWork length).run w =
      (frameIn length (nextReply length w.line),
        { w.after (readingTime length w.line) with
          line := lineAfter length w.line, journal }) := by
  unfold receiveWork lineAfter
  rw [run_receive_bind]
  generalize nextReply length w.line = reply
  match reply with
  | .error e => cases e <;> exact ⟨_, rfl⟩
  | .ok [] =>
      have hempty : ¬ Response.Intact [] length := by
        intro hintact
        have hzero : ([] : Bytes).length = length := hintact.length_eq
        rw [List.length_nil] at hzero
        omega
      have hkept : ¬ Damaged length (.ok []) := by
        rintro ⟨_, heq, hne, -⟩
        exact hne (Except.ok.inj heq).symm
      rw [if_neg hkept, frameIn, if_neg hempty]
      exact ⟨_, rfl⟩
  | .ok (first :: rest) =>
      have hdamaged := damaged_iff_of_ne_nil length (List.cons_ne_nil first rest)
      by_cases hintact : Response.Intact (first :: rest) length
      · rw [if_neg (mt hdamaged.1 (not_not_intro hintact)), frameIn, if_pos hintact]
        exact run_sift_of_intact hintact _
      · rw [if_pos (hdamaged.2 hintact), frameIn, if_neg hintact]
        exact run_sift_of_not_intact h hintact _

end Bus

/-! ## The reading as a whole -/

namespace Driver

open Routine

theorem run_settle (source : String) (id : UInt8) (nonce : UInt32) (version : Job → UInt32)
    (w : World) :
    ∃ journal, (settle source id nonce version).run w =
      (.ok (w.ledger.share? id nonce version),
        { w with ledger := w.ledger.heard (w.ledger.share? id nonce version), journal }) := by
  unfold settle Ledger.share?
  rw [run_lookUp_bind]
  cases w.ledger.jobs.get? id with
  | none => exact ⟨_, rfl⟩
  | some job =>
      dsimp only
      rw [run_screen_bind, RepeatFilter.accept]
      by_cases h : w.ledger.repeats.previous = some nonce
      · rw [if_pos h, if_pos h]
        exact ⟨_, rfl⟩
      · rw [if_neg h, if_neg h]
        exact ⟨_, rfl⟩

end Driver

namespace Model

def nextReply (model : Model) (w : World) : Except LinkError Bytes :=
  Bus.nextReply model.family.resultLength w.line

def read (model : Model) (w : World) : World :=
  { w.after (Bus.readingTime model.family.resultLength w.line) with
    line := Bus.lineAfter model.family.resultLength w.line
    ledger :=
      match model.judge w.ledger (model.nextReply w) with
      | .ok found => w.ledger.heard found
      | .error _ => w.ledger }

/-- A driver that settles frames as the model says reads results as the model says. -/
theorem run_read (model : Model) (settleFrame : Bytes → Routine ChainError (Option Share))
    (hsettle : ∀ (frame : Bytes) (w : World),
      Response.Intact frame model.family.resultLength →
        ∃ journal, (settleFrame frame).run w =
          (.ok (model.share? w.ledger frame),
            { w with ledger := w.ledger.heard (model.share? w.ledger frame), journal }))
    (w : World) :
    ∃ journal, (do
        match ← Bus.receiveWork model.family.resultLength with
        | none => return none
        | some frame => settleFrame frame : Routine ChainError (Option Share)).run w =
      (model.judge w.ledger (model.nextReply w), { model.read w with journal }) := by
  have hlength : 2 ≤ model.family.resultLength := by cases model <;> decide
  obtain ⟨journal, hreceive⟩ := Bus.run_receiveWork hlength w
  rw [Routine.run_bind, hreceive, read]
  unfold nextReply
  generalize Bus.nextReply model.family.resultLength w.line = reply
  cases reply with
  | error e => cases e <;> exact ⟨journal, rfl⟩
  | ok received =>
      by_cases hintact : Response.Intact received model.family.resultLength
      · dsimp only [Bus.frameIn]
        rw [if_pos hintact]
        exact hsettle received _ hintact
      · dsimp only [Bus.frameIn, judge, share?]
        rw [if_neg hintact, if_neg hintact]
        exact ⟨journal, rfl⟩

end Model

theorem Midstate.run_settleFrame (frame : Bytes) (w : World)
    (h : Response.Intact frame Model.bm1397.family.resultLength) :
    ∃ journal, (settleFrame frame).run w =
      (.ok (Model.bm1397.share? w.ledger frame),
        { w with ledger := w.ledger.heard (Model.bm1397.share? w.ledger frame), journal }) := by
  have hversion : Model.bm1397.versionOf frame =
      fun job => versionAfter job (Response.echo frame &&& 3).toNat := by
    funext job
    exact iterate_eq_versionAfter job _
  rw [settleFrame, read?_of_length h.length_eq, Model.share?, if_pos h, hversion]
  exact Driver.run_settle ..

theorem Rolling.run_settleFrame (profile : RollingProfile) (model : Model)
    (hlength : model.family.resultLength = 11) (hslot : profile.jobId = model.slot)
    (hversion : ∀ frame job, model.versionOf frame job =
      job.version ||| ((Response.versionField frame).toUInt32 <<< 13))
    (frame : Bytes) (w : World) (h : Response.Intact frame model.family.resultLength) :
    ∃ journal, (settleFrame profile frame).run w =
      (.ok (model.share? w.ledger frame),
        { w with ledger := w.ledger.heard (model.share? w.ledger frame), journal }) := by
  rw [settleFrame, read?_of_length (h.length_eq.trans hlength), Model.share?, if_pos h, ← hslot,
    funext (hversion frame)]
  exact Driver.run_settle source _ _ _ (w.record _)

theorem Model.run_readShare (model : Model) (w : World) :
    ∃ journal, model.driver.readShare.run w =
      (model.judge w.ledger (model.nextReply w), { model.read w with journal }) := by
  cases model with
  | bm1397 => exact run_read .bm1397 Midstate.settleFrame Midstate.run_settleFrame w
  | bm1366 =>
      exact run_read .bm1366 (Rolling.settleFrame .bm1366)
        (Rolling.run_settleFrame .bm1366 .bm1366 rfl rfl fun _ _ => rfl) w
  | bm1368 =>
      exact run_read .bm1368 (Rolling.settleFrame .bm1368)
        (Rolling.run_settleFrame .bm1368 .bm1368 rfl rfl fun _ _ => rfl) w
  | bm1370 =>
      exact run_read .bm1370 (Rolling.settleFrame .bm1370)
        (Rolling.run_settleFrame .bm1370 .bm1370 rfl rfl fun _ _ => rfl) w

end ChipChain
