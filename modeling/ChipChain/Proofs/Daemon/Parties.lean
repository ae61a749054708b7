import ChipChain.Daemon.Machine
import ChipChain.Proofs.Chain.Sending
import ChipChain.Proofs.Routine.Protocol
import ChipChain.Proofs.Work.Slots

/-!
# What the parties of a daemon do

The reader takes a frame, looks its job up, screens its nonce, and delivers what
is left. The dispatcher draws an identifier for a job, makes the job live under
it, and sends the job's frame. The manager does neither. Each is a protocol that
the party's routines obey, whatever happens between two of their actions.
-/

namespace ChipChain

open Routine

namespace Model

def shareIn (model : Model) (frame : Bytes) (job : Job) : Share :=
  ⟨model.slot (Response.echo frame), Response.nonce frame, model.versionOf frame job, job⟩

def foundIn (model : Model) (frame : Bytes) (job : Job) : Found :=
  ⟨job, model.shareIn frame job⟩

end Model

/-! ## The reader -/

/-- What the reader has in hand. -/
inductive Hearing where
  | nothing
  | heard (frame : Bytes)
  | matched (frame : Bytes) (job : Job)
  | passed (frame : Bytes) (job : Job)

namespace Hearing

/-- An intact frame is taken in hand. -/
def ofReply (model : Model) : Except LinkError Bytes → Hearing
  | .ok frame => if Response.Intact frame model.family.resultLength then .heard frame else .nothing
  | .error _ => .nothing

/-- A frame without a live job is dropped. -/
def afterLookUp : Hearing → Option Job → Hearing
  | .heard frame, some job => .matched frame job
  | _, _ => .nothing

/-- A nonce that was just reported is dropped. -/
def afterScreen : Hearing → Bool → Hearing
  | .matched frame job, true => .passed frame job
  | _, _ => .nothing

def next (model : Model) (h : Hearing) : (action : Action) → action.Answer → Hearing
  | .receive _ _, reply => ofReply model reply
  | .lookUp _, job? => h.afterLookUp job?
  | .screen _, fresh => h.afterScreen fresh
  | .deliver _, _ => .nothing
  | _, _ => h

/-- What the reader may do with what it has in hand: the one thing that is due, and reports. -/
def May (model : Model) (h : Hearing) : Action → Prop
  | .note _ => True
  | .receive _ _ => h = .nothing
  | .flush => h = .nothing
  | .lookUp id => ∃ frame, h = .heard frame ∧ id = model.slot (Response.echo frame)
  | .screen nonce => ∃ frame job, h = .matched frame job ∧ nonce = Response.nonce frame
  | .deliver found => ∃ frame job, h = .passed frame job ∧ found = model.foundIn frame job
  | _ => False

end Hearing

def Model.reading (model : Model) : Protocol Hearing :=
  ⟨Hearing.May model, Hearing.next model⟩

def Hearing.OfFrame (model : Model) : Except ChainError (Option Bytes) → Hearing → Prop
  | .ok (some frame), h => h = .heard frame ∧ Response.Intact frame model.family.resultLength
  | _, h => h = .nothing

def Hearing.OfShare (model : Model) : Except ChainError (Option Share) → Hearing → Prop
  | .ok (some share), h => ∃ frame job, h = .passed frame job ∧ share = model.shareIn frame job
  | _, h => h = .nothing

namespace Bus

variable (model : Model)

theorem discard_obeys (frame : Bytes) (fault : ResponseFault) :
    (discard frame fault).Obeys model.reading (Hearing.OfFrame model) .nothing := by
  refine Obeys.perform_bind trivial fun _ => Obeys.perform_bind rfl fun answer => ?_
  cases answer with
  | ok _ => rfl
  | error e => exact Obeys.perform_bind trivial fun _ => rfl

theorem sift_obeys (frame : Bytes) :
    (sift model.family.resultLength frame).Obeys model.reading (Hearing.OfFrame model)
      (Hearing.ofReply model (.ok frame)) := by
  refine Obeys.perform_bind trivial fun _ => ?_
  change Obeys model.reading _ _ (Hearing.ofReply model (.ok frame))
  cases hcheck : Response.check frame model.family.resultLength with
  | ok _ => exact ⟨if_pos hcheck, hcheck⟩
  | error fault =>
      have hfault : ¬ Response.Intact frame model.family.resultLength := by
        simp [Response.Intact, hcheck]
      rw [Hearing.ofReply, if_neg hfault]
      cases fault with
      | stub => rfl
      | _ => exact discard_obeys model frame _

theorem receiveWork_obeys :
    (receiveWork model.family.resultLength).Obeys model.reading (Hearing.OfFrame model)
      .nothing := by
  refine Obeys.perform_bind rfl fun reply => ?_
  change Obeys model.reading _ _ (Hearing.ofReply model reply)
  match reply with
  | .error e =>
      cases e with
      | disconnected => rfl
      | _ => exact Obeys.perform_bind trivial fun _ => rfl
  | .ok [] =>
      have hempty : Hearing.ofReply model (.ok []) = .nothing := by
        cases model <;> rfl
      rw [hempty]
      exact Obeys.perform_bind trivial fun _ => rfl
  | .ok (first :: rest) => exact sift_obeys model (first :: rest)

end Bus

theorem Driver.settle_obeys (model : Model) (source : String) {frame : Bytes} {id : UInt8}
    {nonce : UInt32} {version : Job → UInt32} (hid : id = model.slot (Response.echo frame))
    (hnonce : nonce = Response.nonce frame) (hversion : version = model.versionOf frame) :
    (settle source id nonce version).Obeys model.reading (Hearing.OfShare model)
      (.heard frame) := by
  subst hid hnonce hversion
  refine Obeys.perform_bind ⟨frame, rfl, rfl⟩ fun job? => ?_
  cases job? with
  | none => exact Obeys.perform_bind trivial fun _ => rfl
  | some job =>
      refine Obeys.perform_bind ⟨frame, job, rfl, rfl⟩ fun fresh => ?_
      cases fresh with
      | true => exact ⟨frame, job, rfl, rfl⟩
      | false => exact Obeys.perform_bind trivial fun _ => rfl

namespace Model

theorem read_obeys (model : Model) (settleFrame : Bytes → Routine ChainError (Option Share))
    (hsettle : ∀ frame, Response.Intact frame model.family.resultLength →
      (settleFrame frame).Obeys model.reading (Hearing.OfShare model) (.heard frame)) :
    (do
      match ← Bus.receiveWork model.family.resultLength with
      | none => return none
      | some frame => settleFrame frame : Routine ChainError (Option Share)).Obeys
        model.reading (Hearing.OfShare model) .nothing := by
  refine Obeys.bind (Bus.receiveWork_obeys model) ?_ ?_
  · intro frame? h hframe
    cases frame? with
    | none => exact hframe
    | some frame =>
        obtain ⟨rfl, hintact⟩ := hframe
        exact hsettle frame hintact
  · exact fun _ _ hnothing => hnothing

end Model

theorem Midstate.settleFrame_obeys (frame : Bytes)
    (h : Response.Intact frame Model.bm1397.family.resultLength) :
    (settleFrame frame).Obeys Model.bm1397.reading (Hearing.OfShare .bm1397) (.heard frame) := by
  have hversion : (fun job => versionAfter job (Response.echo frame &&& 3).toNat) =
      Model.bm1397.versionOf frame := by
    funext job
    exact (iterate_eq_versionAfter job _).symm
  rw [settleFrame, read?_of_length h.length_eq]
  exact Driver.settle_obeys .bm1397 source rfl rfl hversion

theorem Rolling.settleFrame_obeys (profile : RollingProfile) (model : Model)
    (hlength : model.family.resultLength = 11) (hslot : profile.jobId = model.slot)
    (hversion : ∀ frame job, model.versionOf frame job =
      job.version ||| ((Response.versionField frame).toUInt32 <<< 13))
    (frame : Bytes) (h : Response.Intact frame model.family.resultLength) :
    (settleFrame profile frame).Obeys model.reading (Hearing.OfShare model) (.heard frame) := by
  rw [settleFrame, read?_of_length (h.length_eq.trans hlength)]
  refine Obeys.perform_bind trivial fun _ => ?_
  exact Driver.settle_obeys model source (congrFun hslot _) rfl (funext (hversion frame)).symm

theorem Model.readShare_obeys (model : Model) :
    model.driver.readShare.Obeys model.reading (Hearing.OfShare model) .nothing := by
  cases model with
  | bm1397 => exact read_obeys .bm1397 Midstate.settleFrame Midstate.settleFrame_obeys
  | bm1366 =>
      exact read_obeys .bm1366 (Rolling.settleFrame .bm1366)
        (Rolling.settleFrame_obeys .bm1366 .bm1366 rfl rfl fun _ _ => rfl)
  | bm1368 =>
      exact read_obeys .bm1368 (Rolling.settleFrame .bm1368)
        (Rolling.settleFrame_obeys .bm1368 .bm1368 rfl rfl fun _ _ => rfl)
  | bm1370 =>
      exact read_obeys .bm1370 (Rolling.settleFrame .bm1370)
        (Rolling.settleFrame_obeys .bm1370 .bm1370 rfl rfl fun _ _ => rfl)

namespace Daemon

theorem readOnce_obeys (d : Daemon) :
    d.readOnce.Obeys d.settings.model.reading (fun _ h => h = .nothing) .nothing := by
  refine Obeys.bind d.settings.model.readShare_obeys ?_ ?_
  · intro share? h hshare
    cases share? with
    | none => exact hshare
    | some share =>
        obtain ⟨frame, job, rfl, rfl⟩ := hshare
        refine Obeys.perform_bind trivial fun _ => ?_
        refine Obeys.perform_bind ⟨frame, job, rfl, rfl⟩ fun taken => ?_
        cases taken with
        | true => rfl
        | false => exact Obeys.perform_bind trivial fun _ => rfl
  · exact fun _ _ hnothing => hnothing

end Daemon

/-! ## How long a reading takes -/

namespace Bus

theorem discard_brief (frame : Bytes) (fault : ResponseFault) : (discard frame fault).Brief 3 := by
  refine Brief.perform_bind fun _ => Brief.perform_bind fun answer => ?_
  cases answer with
  | ok _ => exact Brief.done _
  | error e => exact Brief.perform_bind fun _ => Brief.done _

theorem sift_brief (length : Nat) (frame : Bytes) : (sift length frame).Brief 4 := by
  unfold sift
  refine Brief.perform_bind fun _ => ?_
  cases Response.check frame length with
  | ok _ => exact Brief.done _
  | error fault =>
      cases fault with
      | stub => exact Brief.fail _
      | _ => exact discard_brief frame _

theorem receiveWork_brief (length : Nat) : (receiveWork length).Brief 5 := by
  refine Brief.perform_bind fun reply => ?_
  match reply with
  | .error e =>
      cases e with
      | disconnected => exact Brief.fail _
      | _ => exact Brief.perform_bind fun _ => Brief.done _
  | .ok [] => exact Brief.perform_bind fun _ => Brief.done _
  | .ok (first :: rest) => exact sift_brief length (first :: rest)

end Bus

theorem Driver.settle_brief (source : String) (id : UInt8) (nonce : UInt32)
    (version : Job → UInt32) : (settle source id nonce version).Brief 3 := by
  refine Brief.perform_bind fun job? => ?_
  cases job? with
  | none => exact Brief.perform_bind fun _ => Brief.done _
  | some job =>
      refine Brief.perform_bind fun fresh => ?_
      cases fresh with
      | true => exact Brief.done _
      | false => exact Brief.perform_bind fun _ => Brief.done _

theorem Midstate.settleFrame_brief (frame : Bytes) : (settleFrame frame).Brief 4 := by
  unfold settleFrame
  cases ResultFields.read? frame with
  | none => exact Brief.fail _
  | some result => exact (Driver.settle_brief _ _ _ _).mono 1

theorem Rolling.settleFrame_brief (profile : RollingProfile) (frame : Bytes) :
    (settleFrame profile frame).Brief 4 := by
  unfold settleFrame
  cases ResultFields.read? frame with
  | none => exact Brief.fail _
  | some result => exact Brief.perform_bind fun _ => Driver.settle_brief _ _ _ _

theorem Bus.read_brief (length : Nat) {settleFrame : Bytes → Routine ChainError (Option Share)}
    (h : ∀ frame, (settleFrame frame).Brief 4) :
    (do
      match ← receiveWork length with
      | none => return none
      | some frame => settleFrame frame : Routine ChainError (Option Share)).Brief (5 + 4) := by
  refine Brief.bind (receiveWork_brief length) fun frame? => ?_
  cases frame? with
  | none => exact Brief.done _
  | some frame => exact h frame

theorem Model.readShare_brief (model : Model) : model.driver.readShare.Brief 9 := by
  cases model with
  | bm1397 => exact Bus.read_brief _ Midstate.settleFrame_brief
  | bm1366 => exact Bus.read_brief _ (Rolling.settleFrame_brief .bm1366)
  | bm1368 => exact Bus.read_brief _ (Rolling.settleFrame_brief .bm1368)
  | bm1370 => exact Bus.read_brief _ (Rolling.settleFrame_brief .bm1370)

/-- No reading takes more than so many actions. -/
def Daemon.readingLimit : Nat := 12

theorem Daemon.readOnce_brief (d : Daemon) : d.readOnce.Brief readingLimit := by
  change d.readOnce.Brief (9 + 3)
  refine Brief.bind d.settings.model.readShare_brief fun share? => ?_
  cases share? with
  | none => exact Brief.done _
  | some share =>
      refine Brief.perform_bind fun _ => Brief.perform_bind fun taken => ?_
      cases taken with
      | true => exact Brief.done _
      | false => exact Brief.perform_bind fun _ => Brief.done _

/-! ## The dispatcher -/

/-- How far the dispatcher has come with a message. -/
inductive Errand where
  | idle
  | holding (job : Job)
  | drawn (job : Job) (id : UInt8)
  | installed (job : Job) (id : UInt8)
  | clearing

namespace Errand

def ofMessage : WorkMessage → Errand
  | .work job => .holding job
  | .cleanJobs => .clearing

def afterDraw : Errand → UInt8 → Errand
  | .holding job, id => .drawn job id
  | _, _ => .idle

def afterInstall : Errand → Errand
  | .drawn job id => .installed job id
  | _ => .idle

def next (e : Errand) : (action : Action) → action.Answer → Errand
  | .drawId, id => e.afterDraw id
  | .install _ _, _ => e.afterInstall
  | .transmit _, _ => .idle
  | .clearJobs, _ => .idle
  | _, _ => e

/-- What the dispatcher may do: the one thing that is due, and reports. -/
def May (model : Model) (e : Errand) : Action → Prop
  | .note _ => True
  | .countLive => True
  | .drawId => ∃ job, e = .holding job
  | .install id job => e = .drawn job id
  | .transmit frame => ∃ job id, e = .installed job id ∧ frame = model.jobFrame job id
  | .clearJobs => e = .clearing
  | _ => False

end Errand

def Model.dispatching (model : Model) : Protocol Errand :=
  ⟨Errand.May model, Errand.next⟩

/-- An errand is over in the end; a rest follows a work, and only a work can fail. -/
def Errand.Ends (message : WorkMessage) (outcome : Except ChainError Bool) (e : Errand) : Prop :=
  e = .idle ∧
    match outcome with
    | .ok rests => rests = message.job?.isSome
    | .error _ => message.job?.isSome = true

theorem Bus.send_obeys (model : Model) (job : Job) (id : UInt8) :
    (send (.job (model.payload job id))).Obeys model.dispatching (fun _ e => e = .idle)
      (.installed job id) := by
  unfold send
  rw [Command.encode_nil, Command.oversized?_of_fits (model.fits_payload job id)]
  refine Obeys.perform_bind trivial fun _ => ?_
  refine Obeys.perform_bind ⟨job, id, rfl, rfl⟩ fun answer => ?_
  cases answer <;> rfl

theorem Model.sendWork_obeys (model : Model) (job : Job) :
    (model.driver.sendWork job).Obeys model.dispatching (fun _ e => e = .idle)
      (.holding job) := by
  obtain ⟨source, hsendWork⟩ := model.sendWork_eq
  rw [hsendWork]
  refine Obeys.perform_bind ⟨job, rfl⟩ fun id => Obeys.perform_bind rfl fun _ => ?_
  refine Obeys.perform_bind trivial fun _ => ?_
  exact Obeys.bind (Bus.send_obeys model job id) (fun _ _ hidle => hidle) fun _ _ hidle => hidle

theorem Daemon.handle_obeys (d : Daemon) (message : WorkMessage) :
    (d.handle message).Obeys d.settings.model.dispatching (Errand.Ends message)
      (Errand.ofMessage message) := by
  cases message with
  | work job =>
      refine Obeys.bind (d.settings.model.sendWork_obeys job) (fun _ _ hidle => ?_)
        fun _ _ hidle => ⟨hidle, rfl⟩
      exact Obeys.perform_bind trivial fun _ => ⟨hidle, rfl⟩
  | cleanJobs =>
      refine Obeys.perform_bind trivial fun _ => Obeys.perform_bind trivial fun _ => ?_
      exact Obeys.perform_bind rfl fun _ => ⟨rfl, rfl⟩

/-! ## How long an errand takes -/

theorem Bus.send_brief (c : Command) : (send c).Brief 2 := by
  unfold send
  rw [Command.encode_nil]
  cases c.oversized? with
  | some e => exact Brief.fail _
  | none =>
      refine Brief.perform_bind fun _ => Brief.perform_bind fun answer => ?_
      cases answer with
      | ok _ => exact Brief.done _
      | error e => exact Brief.fail _

theorem Model.sendWork_brief (model : Model) (job : Job) :
    (model.driver.sendWork job).Brief 5 := by
  obtain ⟨source, hsendWork⟩ := model.sendWork_eq
  rw [hsendWork]
  refine Brief.perform_bind fun _ => Brief.perform_bind fun _ => Brief.perform_bind fun _ => ?_
  change (_ : Routine ChainError UInt8).Brief (2 + 0)
  exact Brief.bind (Bus.send_brief _) fun _ => Brief.done _

def Daemon.handlingLimit : Nat := 6

theorem Daemon.handle_brief (d : Daemon) (message : WorkMessage) :
    (d.handle message).Brief handlingLimit := by
  cases message with
  | work job =>
      change (d.handle (.work job)).Brief (5 + 1)
      exact Brief.bind (d.settings.model.sendWork_brief job) fun _ =>
        Brief.perform_bind fun _ => Brief.done _
  | cleanJobs =>
      refine Brief.perform_bind fun _ => Brief.perform_bind fun _ => ?_
      exact Brief.perform_bind fun _ => Brief.done _

/-! ## The manager -/

namespace Manager

theorem applyVoltage_aside (c : Controller) (voltage : UInt16) :
    (applyVoltage (surroundings c) voltage : Routine Empty Unit).Aside := by
  refine Within.perform_bind trivial fun answer => ?_
  cases answer with
  | failed reason => exact Within.perform_bind trivial fun _ => Within.perform trivial
  | _ => exact Within.perform trivial

end Manager

theorem Controller.setFrequency_aside (model : Model) (jobInterval : Option Nat)
    (target : Frequency) :
    ((ofModel model jobInterval).setFrequency target : Routine Empty Bool).Aside := by
  refine Within.perform_bind trivial fun _ => ?_
  refine Within.bind (Within.attempt (model.upkeep_aside (model.setFrequency_upkeep target)))
    fun outcome => ?_
  cases outcome with
  | ok _ => exact Within.perform_bind trivial fun _ => trivial
  | error e => exact Within.perform_bind trivial fun _ => trivial

namespace Manager

theorem followVoltage_aside (c : Controller) (m : Manager) :
    (m.followVoltage (surroundings c) c.driver.family : Routine Empty Manager).Aside := by
  refine Within.perform_bind trivial fun store => ?_
  dsimp only
  split
  · exact Within.bind (applyVoltage_aside c _) fun _ => trivial
  · trivial

theorem followFrequency_aside (d : Daemon) (m : Manager) :
    (m.followFrequency (surroundings d.controller) : Routine Empty Manager).Aside := by
  refine Within.perform_bind trivial fun store => ?_
  dsimp only
  split
  · trivial
  · refine Within.perform_bind trivial fun _ => ?_
    exact Within.bind (Controller.setFrequency_aside _ _ _) fun _ => trivial

theorem poll_aside (d : Daemon) (m : Manager) :
    (m.poll d.controller : Routine Empty Manager).Aside :=
  Within.bind (followVoltage_aside d.controller m) fun m => m.followFrequency_aside d

theorem begin_aside (d : Daemon) (m : Manager) :
    (m.begin d.controller : Routine Empty Manager).Aside :=
  Within.perform_bind trivial fun _ => poll_aside d m

end Manager

end ChipChain
