import ChipChain.Proofs.Chain.RoundTrip
import ChipChain.Proofs.Chain.Sending

/-!
# Where live jobs come from

A job that is live under an identifier is the one that was handed out last under
it (`exists_lastSend`). Handing a job out makes it live before its frame is sent,
so a job whose sending failed is live as well, and a result may be told of a job
that the chips have never seen (`unsent_job_is_reported`). What does hold of every
result is `result_of_last_send`.
-/

namespace ChipChain

open Driver

namespace Driver

theorem Answer.share?_eq_some_iff {answer : Answer} {share : Share} :
    answer.share? = some share ↔ answer = .share (.ok (some share)) := by
  cases answer with
  | share outcome => cases outcome <;> simp [Answer.share?]
  | _ => simp [Answer.share?]

theorem sends_append (first second : List Incident) :
    sends (first ++ second) = sends first + sends second :=
  List.countP_append

end Driver

namespace Model

/-- Among these incidents the job was handed out under the identifier, and since then nothing else
was handed out under it, nor was it forgotten. -/
structure LastSend (model : Model) (incidents : List Incident) (id : UInt8) (job : Job)
    (before after : List Incident) : Prop where
  split : incidents = before ++ .sendWork job :: after
  drawn : id = IdAllocator.nth model.family.jobIdStep (sends before + 1)
  recent : sends after < IdAllocator.period model.family.jobIdStep
  kept : ∀ incident ∈ after, incident ≠ .invalidate id ∧ incident ≠ .invalidateAll

section

variable {model : Model} {incidents before after : List Incident} {id : UInt8} {job : Job}

theorem LastSend.concat_sendWork (model : Model) (incidents : List Incident) (job : Job) :
    model.LastSend (incidents ++ [.sendWork job])
      (IdAllocator.nth model.family.jobIdStep (sends incidents + 1)) job incidents [] where
  split := rfl
  drawn := rfl
  recent := by cases model <;> decide
  kept := nofun

theorem LastSend.concat (h : model.LastSend incidents id job before after) {incident : Incident}
    (hdrawn : incident.isSend →
      id ≠ IdAllocator.nth model.family.jobIdStep (sends incidents + 1))
    (hkept : incident ≠ .invalidate id ∧ incident ≠ .invalidateAll) :
    model.LastSend (incidents ++ [incident]) id job before (after ++ [incident]) where
  split := by rw [h.split, List.append_assoc, List.cons_append]
  drawn := h.drawn
  recent := by
    have hrecent := h.recent
    rw [sends_append]
    by_cases hsend : incident.isSend
    · have hone : sends [incident] = 1 := by simp [sends, hsend]
      -- At the end of a period the very identifier would have been drawn again.
      have hne : sends after + 1 ≠ IdAllocator.period model.family.jobIdStep := by
        intro hperiod
        apply hdrawn hsend
        have hcount : sends incidents + 1 =
            sends before + 1 + IdAllocator.period model.family.jobIdStep := by
          have hfirst : sends [Incident.sendWork job] = 1 := rfl
          rw [h.split, sends_append, sends_cons, hfirst]
          omega
        rw [h.drawn, hcount]
        exact IdAllocator.nth_eq_nth_iff.2 (Nat.ModEq.symm (by simp [Nat.ModEq]))
      omega
    · have hnone : sends [incident] = 0 := by simp [sends, hsend]
      omega
  kept := by
    intro later hlater
    rcases List.mem_append.1 hlater with hlater | hlater
    · exact h.kept later hlater
    · rwa [List.mem_singleton.1 hlater]

theorem get?_serve_eq_some {w : World} {count : Nat} {reported : List Share} {incident : Incident}
    (hrecords : w.ledger.Records model.family.jobIdStep count reported)
    (h : (model.driver.serve w incident).2.ledger.jobs.get? id = some job) :
    (incident = .sendWork job ∧ id = IdAllocator.nth model.family.jobIdStep (count + 1)) ∨
      (w.ledger.jobs.get? id = some job ∧
        (incident.isSend → id ≠ IdAllocator.nth model.family.jobIdStep (count + 1)) ∧
        incident ≠ .invalidate id ∧ incident ≠ .invalidateAll) := by
  have hdraw : w.ledger.ids.next.1 = IdAllocator.nth model.family.jobIdStep (count + 1) := by
    rw [hrecords.ids, IdAllocator.next_nth]
  rw [ledger_serve] at h
  cases incident with
  | sendWork job' =>
      rw [Ledger.follow, Ledger.issue, hdraw, Registry.get?_install (IdAllocator.nth_lt ..)] at h
      split at h
      case isTrue heq =>
        cases h
        exact .inl ⟨rfl, heq⟩
      case isFalse hne => exact .inr ⟨h, fun _ => hne, by simp, by simp⟩
  | readShare =>
      rw [Ledger.follow, Ledger.heard_jobs] at h
      exact .inr ⟨h, by simp [Incident.isSend], by simp, by simp⟩
  | invalidate other =>
      rw [Ledger.follow, Registry.invalidate, Registry.get?_put] at h
      split at h
      case isTrue => cases h
      case isFalse hne =>
        refine .inr ⟨h, by simp [Incident.isSend], ?_, by simp⟩
        intro heq
        cases heq
        -- An identifier outside the space has no job to forget.
        have hout : ¬ id.toNat < jobIdSpace := fun hlt => hne ⟨rfl, hlt⟩
        rw [Registry.get?, dif_neg hout] at h
        cases h
  | invalidateAll =>
      rw [Ledger.follow, Registry.get?_empty] at h
      cases h
  | _ => exact .inr ⟨h, by simp [Incident.isSend], by simp, by simp⟩

theorem exists_lastSend (w : World)
    (h : (model.driver.serveAll (model.anew w) incidents).2.ledger.jobs.get? id = some job) :
    ∃ before after, model.LastSend incidents id job before after := by
  induction incidents using List.reverseRecOn with
  | nil =>
      rw [serveAll, anew, World.fresh, Registry.get?_empty] at h
      cases h
  | append_singleton incidents incident ih =>
      rw [serveAll_append] at h
      rcases get?_serve_eq_some (model.records_anew w incidents) h with
        ⟨rfl, rfl⟩ | ⟨hlive, hdrawn, hkept⟩
      · exact ⟨incidents, [], LastSend.concat_sendWork model incidents job⟩
      · obtain ⟨before, after, hlast⟩ := ih hlive
        exact ⟨before, after ++ [incident], hlast.concat hdrawn hkept⟩

end

/-! ## The job of a result -/

/-- A result is told of the job that was handed out last under its identifier. Either the host was
told that identifier, and the job's frame went out under it; or the host was told of a failure, and
no frame of the job went out. -/
theorem result_of_last_send (model : Model) (w : World) (incidents : List Incident) (share : Share)
    (h : (model.driver.serve (model.driver.serveAll (model.anew w) incidents).2
      .readShare).1.share? = some share) :
    ∃ before after outcome sent,
      model.LastSend incidents share.jobId share.job before after ∧
      model.driver.serve (model.driver.serveAll (model.anew w) before).2 (.sendWork share.job) =
        (.sent outcome, sent) ∧
      sent.frames <+: (model.driver.serveAll (model.anew w) incidents).2.frames ∧
      (outcome = .ok share.jobId ∧
          sent.frames = (model.driver.serveAll (model.anew w) before).2.frames ++
            [model.jobFrame share.job share.jobId] ∨
        (∃ e, outcome = .error e) ∧
          sent.frames = (model.driver.serveAll (model.anew w) before).2.frames) := by
  rw [serve_readShare] at h
  have hjudge := Answer.share.inj (Answer.share?_eq_some_iff.1 h)
  obtain ⟨_, job, -, -, hlive, -, rfl⟩ := judge_eq_some_iff.1 hjudge
  obtain ⟨before, after, hlast⟩ := exists_lastSend w hlive
  have hdrawn : (model.driver.serveAll (model.anew w) before).2.ledger.ids.next.1 =
      IdAllocator.nth model.family.jobIdStep (sends before + 1) := by
    rw [(model.records_anew w before).ids, IdAllocator.next_nth]
  have hsent := model.frames_sendWork job (model.driver.serveAll (model.anew w) before).2
  have hlater := model.driver.frames_isPrefix_serveAll
    (model.driver.serve (model.driver.serveAll (model.anew w) before).2 (.sendWork job)).2 after
  refine ⟨before, after, _, _, hlast, rfl, ?_, ?_⟩
  · rw [hlast.split, serveAll_append, serveAll_cons]
    exact hlater
  · cases hrun : (model.driver.sendWork job).run
        (model.driver.serveAll (model.anew w) before).2 with
    | mk outcome sent =>
        rw [hrun] at hsent
        cases outcome with
        | ok id =>
            obtain ⟨hid, hframes⟩ := hsent
            have hsame : id = model.slot (Response.echo _) :=
              hid.trans (hdrawn.trans hlast.drawn.symm)
            subst hsame
            exact .inl ⟨rfl, hframes⟩
        | error e => exact .inr ⟨⟨e, rfl⟩, hsent⟩

theorem result_of_last_send_after_silence :
    ∃ before after, bm1370.LastSend [.sendWork { version := 0x20000000 }, .readShare, .sendWork {}]
      24 { version := 0x20000000 } before after := by
  obtain ⟨before, after, -, -, hlast, -⟩ := result_of_last_send bm1370 reporting
    [.sendWork { version := 0x20000000 }, .readShare, .sendWork {}]
    ⟨24, 0x12345678, 0x20006000, { version := 0x20000000 }⟩ (by decide +kernel)
  exact ⟨before, after, hlast⟩

/-- A job that is never sent: the link fails when its turn comes. -/
def unsent : Job :=
  { version := 0x30000000, poolJobId := "unsent" }

/-- A job goes out under identifier 24, others follow until identifiers come round, all are
forgotten, and the sending of another job under 24 fails. Then the chips report on the first. -/
def interrupted : List Incident :=
  .sendWork { version := 0x20000000, poolJobId := "running" } ::
    List.replicate 15 (.sendWork { poolJobId := "between" }) ++
    [.invalidateAll,
      .rearrange [.bytes report] (some (0, .io "simulated bus error")) none none,
      .sendWork unsent]

theorem unsent_job_is_reported :
    let reached := (bm1370.driver.serveAll (bm1370.anew (World.fresh .bm1370)) interrupted).2
    (bm1370.driver.serve reached .readShare).1.share? =
        some ⟨24, 0x12345678, 0x30006000, unsent⟩ ∧
      reached.frames.length = 16 ∧ bm1370.jobFrame unsent 24 ∉ reached.frames := by
  decide +kernel

end Model

end ChipChain
