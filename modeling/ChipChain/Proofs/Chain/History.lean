import ChipChain.Proofs.Chain.Reading
import ChipChain.Proofs.Chain.Upkeep
import Mathlib.Data.List.Chain

/-!
# Histories of a driver

Everything that can happen to a driver and its link, in any order, with the
answers that the host gets. One incident changes the ledger in a way that depends
on nothing but the incident and its answer (`ledger_serve`); what holds of the
ledger after a whole history follows by induction.
-/

namespace ChipChain

namespace Driver

/-! ## Events and answers -/

/-- Something that happens to a driver or to its link. -/
inductive Incident where
  | init (target : Frequency) (chips : Nat) (difficulty : UInt32)
  | setMaxBaud
  | setDifficulty (difficulty : UInt32)
  | setVersionMask (mask : UInt32)
  | setFrequency (target : Frequency)
  | setNonceRange (target : Frequency) (chips : Nat)
  | sendWork (job : Job)
  | readShare
  | invalidate (id : UInt8)
  | invalidateAll
  /-- The link will answer and fail otherwise than it would have. -/
  | rearrange (replies : List Reply) (sendFault : Option (Nat × LinkError))
      (flushFault baudFault : Option LinkError)

/-- What the host is told. -/
inductive Answer where
  | number (outcome : Except ChainError Nat)
  | set (outcome : Except ChainError Unit)
  | sent (outcome : Except ChainError UInt8)
  | share (outcome : Except ChainError (Option Share))
  | nothing

def Answer.error? : Answer → Option ChainError
  | .number (.error e) => some e
  | .set (.error e) => some e
  | .sent (.error e) => some e
  | .share (.error e) => some e
  | _ => none

def Answer.share? : Answer → Option Share
  | .share (.ok found) => found
  | _ => none

def Incident.isSend : Incident → Bool
  | .sendWork _ => true
  | _ => false

/-- The incident is an order to the chips. -/
def Incident.isOrder : Incident → Bool
  | .readShare => false
  | .invalidate _ => false
  | .invalidateAll => false
  | .rearrange _ _ _ _ => false
  | _ => true

def serve (d : Driver) (w : World) : Incident → Answer × World
  | .init target chips difficulty =>
    let (outcome, w) := (d.init target chips difficulty).run w
    (.number outcome, w)
  | .setMaxBaud =>
    let (outcome, w) := d.setMaxBaud.run w
    (.number outcome, w)
  | .setDifficulty difficulty =>
    let (outcome, w) := (d.setDifficulty difficulty).run w
    (.set outcome, w)
  | .setVersionMask mask =>
    let (outcome, w) := (d.setVersionMask mask).run w
    (.set outcome, w)
  | .setFrequency target =>
    let (outcome, w) := (d.setFrequency target).run w
    (.set outcome, w)
  | .setNonceRange target chips =>
    let (outcome, w) := (d.setNonceRange target chips).run w
    (.set outcome, w)
  | .sendWork job =>
    let (outcome, w) := (d.sendWork job).run w
    (.sent outcome, w)
  | .readShare =>
    let (outcome, w) := d.readShare.run w
    (.share outcome, w)
  | .invalidate id =>
    (.nothing, { w with ledger := { w.ledger with jobs := w.ledger.jobs.invalidate id } })
  | .invalidateAll =>
    (.nothing, { w with ledger := { w.ledger with jobs := .empty } })
  | .rearrange replies sendFault flushFault baudFault =>
    (.nothing, { w with line := { w.line with replies, sendFault, flushFault, baudFault } })

/-- Let incidents happen one after the other: all answers, and the world afterwards. -/
def serveAll (d : Driver) (w : World) : List Incident → List Answer × World
  | [] => ([], w)
  | incident :: rest =>
    let (answer, w) := d.serve w incident
    let (answers, w) := d.serveAll w rest
    (answer :: answers, w)

def sends (incidents : List Incident) : Nat :=
  incidents.countP Incident.isSend

def shares (answers : List Answer) : List Share :=
  answers.filterMap Answer.share?

theorem sends_cons (incident : Incident) (rest : List Incident) :
    sends (incident :: rest) = sends [incident] + sends rest := by
  rw [sends, sends, sends, ← List.singleton_append, List.countP_append]

theorem shares_append (first second : List Answer) :
    shares (first ++ second) = shares first ++ shares second :=
  List.filterMap_append ..

theorem shares_singleton (answer : Answer) : shares [answer] = answer.share?.toList := by
  rw [shares, List.filterMap_cons, List.filterMap_nil]
  cases answer.share? <;> rfl

theorem share?_serve {incident : Incident} (h : incident ≠ .readShare) (d : Driver) (w : World) :
    (d.serve w incident).1.share? = none := by
  cases incident with
  | readShare => exact absurd rfl h
  | _ => rfl

theorem serveAll_cons (d : Driver) (w : World) (incident : Incident) (rest : List Incident) :
    d.serveAll w (incident :: rest) =
      ((d.serve w incident).1 :: (d.serveAll (d.serve w incident).2 rest).1,
        (d.serveAll (d.serve w incident).2 rest).2) := rfl

theorem serveAll_append (d : Driver) (w : World) (first second : List Incident) :
    d.serveAll w (first ++ second) =
      ((d.serveAll w first).1 ++ (d.serveAll (d.serveAll w first).2 second).1,
        (d.serveAll (d.serveAll w first).2 second).2) := by
  induction first generalizing w with
  | nil => rfl
  | cons incident rest ih =>
      rw [List.cons_append, serveAll_cons, serveAll_cons, ih]
      rfl

/-! ## One incident -/

theorem run_dispatch {source : String} {send : Command → Routine ChainError Unit}
    {payload : Job → UInt8 → Bytes} (hsend : ∀ command, (send command).KeepsLedger) (job : Job)
    (w : World) :
    ((dispatch source send payload job).run w).2.ledger = w.ledger.issue job ∧
      ∀ id, ((dispatch source send payload job).run w).1 = .ok id → id = w.ledger.ids.next.1 := by
  let id := w.ledger.ids.next.1
  let w' := { w with ledger := w.ledger.issue job }.record
    ⟨.trace, source, "Sending job", [("job_id", toString id)]⟩
  have hrun : (dispatch source send payload job).run w =
      (send (.job (payload job id)) >>= fun _ => pure id).run w' := rfl
  have hkept := (hsend (.job (payload job id))).run_ledger w'
  rw [hrun, Routine.run_bind]
  cases hsent : (send (.job (payload job id))).run w' with
  | mk outcome w'' =>
      rw [hsent] at hkept
      cases outcome with
      | ok _ => exact ⟨hkept, fun _ h => (Except.ok.inj h).symm⟩
      | error e => exact ⟨hkept, nofun⟩

end Driver

open Driver

/-- What an incident does to the ledger, given what the host was told. -/
def Ledger.follow (l : Ledger) : Incident → Answer → Ledger
  | .sendWork job, _ => l.issue job
  | .readShare, answer => l.heard answer.share?
  | .invalidate id, _ => { l with jobs := l.jobs.invalidate id }
  | .invalidateAll, _ => { l with jobs := .empty }
  | _, _ => l

namespace Model

theorem run_sendWork (model : Model) (job : Job) (w : World) :
    ((model.driver.sendWork job).run w).2.ledger = w.ledger.issue job ∧
      ∀ id, ((model.driver.sendWork job).run w).1 = .ok id → id = w.ledger.ids.next.1 := by
  cases model <;> exact run_dispatch Bus.send_keepsLedger job w

theorem serve_sendWork_ok {model : Model} {w after : World} {job : Job} {id : UInt8}
    (h : model.driver.serve w (.sendWork job) = (.sent (.ok id), after)) :
    id = w.ledger.ids.next.1 ∧ after.ledger = w.ledger.issue job := by
  obtain ⟨hledger, hid⟩ := model.run_sendWork job w
  obtain ⟨hanswer, hafter⟩ := Prod.ext_iff.1 h
  exact ⟨hid id (Answer.sent.inj hanswer), (congrArg World.ledger hafter).symm.trans hledger⟩

theorem readShare_ledger (model : Model) (w : World) :
    (model.driver.readShare.run w).2.ledger =
      w.ledger.heard (Answer.share (model.driver.readShare.run w).1).share? := by
  obtain ⟨journal, hrun⟩ := model.run_readShare w
  rw [hrun, read]
  cases model.judge w.ledger (model.nextReply w) <;> rfl

/-- The incident runs a routine and tells the host how it ended. -/
structure Runs (model : Model) (incident : Incident) {α : Type} (p : Routine ChainError α)
    (tell : Except ChainError α → Answer) : Prop where
  serve (w : World) : model.driver.serve w incident = (tell (p.run w).1, (p.run w).2)
  error (e : ChainError) : (tell (.error e)).error? = some e

theorem runs_upkeep (model : Model) {incident : Incident} (h : incident.isOrder)
    (hsend : incident.isSend = false) :
    ∃ (α : Type) (p : Routine ChainError α) (tell : Except ChainError α → Answer),
      p.Upkeep model.setClock ∧ model.Runs incident p tell := by
  cases incident with
  | init target chips difficulty =>
      exact ⟨_, _, .number, model.init_upkeep target chips difficulty, fun _ => rfl, fun _ => rfl⟩
  | setMaxBaud => exact ⟨_, _, .number, model.setMaxBaud_upkeep, fun _ => rfl, fun _ => rfl⟩
  | setDifficulty difficulty =>
      exact ⟨_, _, .set, model.setDifficulty_upkeep difficulty, fun _ => rfl, fun _ => rfl⟩
  | setVersionMask mask =>
      exact ⟨_, _, .set, model.setVersionMask_upkeep mask, fun _ => rfl, fun _ => rfl⟩
  | setFrequency target =>
      exact ⟨_, _, .set, model.setFrequency_upkeep target, fun _ => rfl, fun _ => rfl⟩
  | setNonceRange target chips =>
      exact ⟨_, _, .set, model.setNonceRange_upkeep target chips, fun _ => rfl, fun _ => rfl⟩
  | sendWork job => cases hsend
  | _ => cases h

/-- What holds of all upkeep and of sending a job holds of what an order runs. -/
theorem runs_order {model : Model} {Q : ∀ α : Type, Routine ChainError α → Prop}
    (hupkeep : ∀ {α : Type} {p : Routine ChainError α}, p.Upkeep model.setClock → Q α p)
    (hsendWork : ∀ job, Q UInt8 (model.driver.sendWork job)) {incident : Incident}
    (h : incident.isOrder) :
    ∃ (α : Type) (p : Routine ChainError α) (tell : Except ChainError α → Answer),
      Q α p ∧ model.Runs incident p tell := by
  cases hsend : incident.isSend with
  | false =>
      obtain ⟨α, p, tell, hp, hruns⟩ := model.runs_upkeep h hsend
      exact ⟨α, p, tell, hupkeep hp, hruns⟩
  | true =>
      cases incident with
      | sendWork job => exact ⟨_, _, .sent, hsendWork job, fun _ => rfl, fun _ => rfl⟩
      | _ => cases hsend

/-- Whatever the link does, an incident and its answer determine what becomes of the ledger. -/
theorem ledger_serve (model : Model) (w : World) (incident : Incident) :
    (model.driver.serve w incident).2.ledger =
      w.ledger.follow incident (model.driver.serve w incident).1 := by
  by_cases hupkeep : incident.isOrder ∧ incident.isSend = false
  · obtain ⟨_, p, tell, hp, hruns⟩ := model.runs_upkeep hupkeep.1 hupkeep.2
    have hfollow : w.ledger.follow incident (model.driver.serve w incident).1 = w.ledger := by
      cases incident <;> first | rfl | simp [Incident.isOrder, Incident.isSend] at hupkeep
    rw [hfollow, hruns.serve]
    exact (model.upkeep_aside hp).run_ledger w
  · cases incident with
    | sendWork job => exact (model.run_sendWork job w).1
    | readShare => exact model.readShare_ledger w
    | invalidate id => rfl
    | invalidateAll => rfl
    | rearrange => rfl
    | _ => exact absurd ⟨rfl, rfl⟩ hupkeep

end Model

/-! ## Histories -/

/-- How a ledger stands after `count` jobs have been handed out and some results reported. -/
structure Ledger.Records (l : Ledger) (step : UInt8) (count : Nat) (reported : List Share) :
    Prop where
  ids : l.ids = ⟨IdAllocator.nth step count, step⟩
  repeats : l.repeats.previous = reported.getLast?.map Share.nonce
  distinct : List.IsChain (· ≠ ·) (reported.map Share.nonce)

namespace Ledger.Records

variable {l : Ledger} {step : UInt8} {count : Nat} {reported : List Share}

theorem blank (step : UInt8) : (Ledger.blank step).Records step 0 [] where
  ids := by rw [IdAllocator.nth, Nat.zero_mul]; rfl
  repeats := rfl
  distinct := List.isChain_nil

theorem issue (h : l.Records step count reported) (job : Job) :
    (l.issue job).Records step (count + 1) reported where
  ids := by rw [Ledger.issue, h.ids, IdAllocator.next_nth]
  repeats := h.repeats
  distinct := h.distinct

theorem heard (h : l.Records step count reported) {found : Option Share}
    (hnew : ∀ share, found = some share → l.repeats.previous ≠ some share.nonce) :
    (l.heard found).Records step count (reported ++ found.toList) := by
  cases found with
  | none => rwa [Option.toList_none, List.append_nil]
  | some share =>
      have hlast := hnew share rfl
      rw [h.repeats] at hlast
      refine ⟨h.ids, ?_, ?_⟩
      · rw [Option.toList_some, List.getLast?_concat]
        rfl
      · rw [Option.toList_some, List.map_append, List.isChain_append]
        refine ⟨h.distinct, List.isChain_singleton _, ?_⟩
        intro last hmem new hnew heq
        rw [List.getLast?_map] at hmem
        cases hnew
        exact hlast (heq ▸ hmem)

end Ledger.Records

namespace Model

theorem serve_readShare (model : Model) (w : World) :
    (model.driver.serve w .readShare).1 = .share (model.judge w.ledger (model.nextReply w)) := by
  obtain ⟨journal, hrun⟩ := model.run_readShare w
  rw [serve, hrun]

theorem records_serve (model : Model) {w : World} {step : UInt8} {count : Nat}
    {reported : List Share} (h : w.ledger.Records step count reported) (incident : Incident) :
    (model.driver.serve w incident).2.ledger.Records step (count + sends [incident])
      (reported ++ shares [(model.driver.serve w incident).1]) := by
  rw [ledger_serve, shares_singleton]
  by_cases hread : incident = .readShare
  · subst hread
    apply h.heard
    rw [serve_readShare]
    intro share hshare
    cases hjudge : model.judge w.ledger (model.nextReply w) with
    | error e =>
        rw [hjudge] at hshare
        cases hshare
    | ok found =>
        rw [hjudge] at hshare
        cases hshare
        exact ne_of_judge hjudge
  · rw [share?_serve hread, Option.toList_none, List.append_nil]
    cases incident with
    | readShare => exact absurd rfl hread
    | sendWork job => exact h.issue job
    | _ => exact ⟨h.ids, h.repeats, h.distinct⟩

theorem records_serveAll (model : Model) {w : World} {step : UInt8} {count : Nat}
    {reported : List Share} (h : w.ledger.Records step count reported)
    (incidents : List Incident) :
    (model.driver.serveAll w incidents).2.ledger.Records step (count + sends incidents)
      (reported ++ shares (model.driver.serveAll w incidents).1) := by
  induction incidents generalizing w count reported with
  | nil =>
      have hnone : shares (model.driver.serveAll w []).1 = [] := rfl
      rw [hnone, List.append_nil]
      exact h
  | cons incident rest ih =>
      have hrest := ih (model.records_serve h incident)
      rw [serveAll_cons, sends_cons, ← Nat.add_assoc, ← List.singleton_append, shares_append,
        ← List.append_assoc]
      exact hrest

/-- The world with a driver that has not done anything. -/
def anew (model : Model) (w : World) : World :=
  { w with ledger := (World.fresh model).ledger }

/-- How any history leaves the ledger of a driver that began anew. -/
theorem records_anew (model : Model) (w : World) (incidents : List Incident) :
    (model.driver.serveAll (model.anew w) incidents).2.ledger.Records model.family.jobIdStep
      (sends incidents) (shares (model.driver.serveAll (model.anew w) incidents).1) := by
  have hblank : (model.anew w).ledger.Records model.family.jobIdStep 0 [] :=
    Ledger.Records.blank _
  have hafter := model.records_serveAll hblank incidents
  rwa [Nat.zero_add, List.nil_append] at hafter

/-! ## How long a job stays live -/

theorem get?_serve (model : Model) {w : World} {incident : Incident} {id : UInt8}
    (hkept : incident ≠ .invalidate id ∧ incident ≠ .invalidateAll)
    (hdrawn : incident.isSend → w.ledger.ids.next.1 ≠ id) :
    (model.driver.serve w incident).2.ledger.jobs.get? id = w.ledger.jobs.get? id := by
  rw [ledger_serve]
  cases incident with
  | sendWork job =>
      have hne : id ≠ w.ledger.ids.next.1 := (hdrawn rfl).symm
      rw [Ledger.follow, Ledger.issue, Registry.install, Registry.get?_put,
        if_neg fun hand => hne hand.1]
  | readShare => rw [Ledger.follow, Ledger.heard_jobs]
  | invalidate other =>
      have hne : id ≠ other := fun heq => hkept.1 (heq ▸ rfl)
      rw [Ledger.follow, Registry.get?_invalidate_of_ne hne]
  | invalidateAll => exact absurd rfl hkept.2
  | _ => rfl

theorem get?_serveAll (model : Model) {w : World} {step : UInt8} {first count : Nat}
    {reported : List Share} {incidents : List Incident}
    (h : w.ledger.Records step count reported) (hfirst : first ≤ count)
    (hfew : count + sends incidents < first + IdAllocator.period step)
    (hkept : ∀ incident ∈ incidents,
      incident ≠ .invalidate (IdAllocator.nth step first) ∧ incident ≠ .invalidateAll) :
    (model.driver.serveAll w incidents).2.ledger.jobs.get? (IdAllocator.nth step first) =
      w.ledger.jobs.get? (IdAllocator.nth step first) := by
  -- The bounds say that every draw of this history comes after the job's own, within a period.
  induction incidents generalizing w count reported with
  | nil => rfl
  | cons incident rest ih =>
      have hsends := sends_cons incident rest
      have hnext := ih (model.records_serve h incident) (by omega) (by omega)
        fun later hlater => hkept later (List.mem_cons_of_mem incident hlater)
      have hdrawn : incident.isSend → w.ledger.ids.next.1 ≠ IdAllocator.nth step first := by
        intro hsend
        have hone : sends [incident] = 1 := by simp [sends, hsend]
        rw [h.ids, IdAllocator.next_nth]
        exact IdAllocator.nth_ne_of_lt (by omega) (by omega)
      rw [← model.get?_serve (hkept incident List.mem_cons_self) hdrawn, ← hnext]
      rfl

end Model

end ChipChain
