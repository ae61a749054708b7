import ChipChain.Proofs.Chain.History

/-!
# From a job to its result

A job that was handed out is found again by the result that the chips report
for it, as long as its identifier has not come round. Three facts meet here: how
an echo is taken apart, when identifiers recur, and what the other incidents leave
alone. The main statement is `dispatch_roundTrip`.
-/

namespace ChipChain

open Driver

namespace Model

/-! ## Echoes -/

/-- How many echoes stand for one identifier. -/
def room : Model → Nat
  | .bm1397 => 4
  | .bm1366 => 8
  | .bm1368 => 16
  | .bm1370 => 16

/-- The echo of an identifier, with something small in the bits that it leaves free. -/
def echoOf : Model → (id low : UInt8) → UInt8
  | .bm1397, id, low => id ||| low
  | .bm1366, id, low => id ||| low
  | .bm1368, id, low => (id <<< 1) ||| low
  | .bm1370, id, low => (id <<< 1) ||| low

/-- Identifiers of a model are multiples of this. -/
def grain (model : Model) : Nat :=
  jobIdSpace.gcd model.family.jobIdStep.toNat

theorem slot_echoOf_ofNat (model : Model) :
    ∀ k < jobIdSpace / model.grain, ∀ low < model.room,
      model.slot (model.echoOf (UInt8.ofNat (model.grain * k)) (UInt8.ofNat low)) =
          UInt8.ofNat (model.grain * k) ∧
        (model = .bm1397 →
          model.echoOf (UInt8.ofNat (model.grain * k)) (UInt8.ofNat low) &&& 3 =
            UInt8.ofNat low) := by
  cases model <;> decide +kernel

theorem exists_ofNat_of_nth (model : Model) (count : Nat) :
    ∃ k < jobIdSpace / model.grain,
      IdAllocator.nth model.family.jobIdStep count = UInt8.ofNat (model.grain * k) := by
  obtain ⟨k, hk⟩ := IdAllocator.gcd_dvd_nth model.family.jobIdStep count
  have hlt := IdAllocator.nth_lt model.family.jobIdStep count
  have hgrain : model.grain ∣ jobIdSpace := Nat.gcd_dvd_left ..
  change _ = model.grain * k at hk
  refine ⟨k, ?_, ?_⟩
  · rw [Nat.lt_div_iff_mul_lt' hgrain, ← hk]
    exact hlt
  · rw [← hk, UInt8.ofNat_toNat]

theorem slot_echoOf (model : Model) (count : Nat) {low : UInt8} (h : low.toNat < model.room) :
    model.slot (model.echoOf (IdAllocator.nth model.family.jobIdStep count) low) =
      IdAllocator.nth model.family.jobIdStep count := by
  obtain ⟨k, hk, hnth⟩ := model.exists_ofNat_of_nth count
  have hslot := (model.slot_echoOf_ofNat k hk low.toNat h).1
  rwa [UInt8.ofNat_toNat, ← hnth] at hslot

theorem versionOf_echoOf (model : Model) (count : Nat) {low : UInt8} {frame : Bytes} {job : Job}
    (h : low.toNat < model.room)
    (hecho : Response.echo frame =
      model.echoOf (IdAllocator.nth model.family.jobIdStep count) low) :
    model.versionOf frame job = model.rolled job low (Response.versionField frame) := by
  cases model with
  | bm1397 =>
      obtain ⟨k, hk, hnth⟩ := exists_ofNat_of_nth .bm1397 count
      have hlow := (slot_echoOf_ofNat .bm1397 k hk low.toNat h).2 rfl
      rw [UInt8.ofNat_toNat, ← hnth] at hlow
      rw [versionOf, hecho, hlow]
  | _ => rfl

theorem period_eq (model : Model) :
    IdAllocator.period model.family.jobIdStep = if model = .bm1397 then 32 else 16 := by
  cases model <;> decide

/-! ## The round trip -/

/-- Whatever happened before, and whatever happens in between as long as the identifier neither
comes round nor is forgotten: an intact frame that echoes a job's identifier, with a nonce other
than that of the last result, is told as the result of that very job. -/
theorem dispatch_roundTrip (model : Model) (w sending sent reached : World)
    (before between : List Incident) (answers answers' : List Answer) (job : Job) (id low : UInt8)
    (frame : Bytes)
    (hbefore : model.driver.serveAll (model.anew w) before = (answers, sending))
    (hsend : model.driver.serve sending (.sendWork job) = (.sent (.ok id), sent))
    (hbetween : model.driver.serveAll sent between = (answers', reached))
    (hfew : sends between < IdAllocator.period model.family.jobIdStep)
    (hkept : ∀ incident ∈ between, incident ≠ .invalidate id ∧ incident ≠ .invalidateAll)
    (hreply : model.nextReply reached = .ok frame)
    (hintact : Response.Intact frame model.family.resultLength)
    (hlow : low.toNat < model.room) (hecho : Response.echo frame = model.echoOf id low)
    (hnew : ∀ last, (shares (answers ++ answers')).getLast? = some last →
      last.nonce ≠ Response.nonce frame) :
    (model.driver.serve reached .readShare).1 =
        .share (.ok (some ⟨id, Response.nonce frame,
          model.rolled job low (Response.versionField frame), job⟩)) ∧
      IdAllocator.period model.family.jobIdStep = if model = .bm1397 then 32 else 16 := by
  refine ⟨?_, model.period_eq⟩
  -- The job takes the draw that follows those of the first history.
  have hstart := model.records_anew w before
  rw [hbefore] at hstart
  obtain ⟨hid, hledger⟩ := serve_sendWork_ok hsend
  rw [hstart.ids, IdAllocator.next_nth] at hid
  dsimp only at hid
  have hsent := hstart.issue job
  rw [← hledger] at hsent
  have hlive : sent.ledger.jobs.get? id = some job := by
    rw [hledger, Ledger.issue, hstart.ids, IdAllocator.next_nth, hid,
      Registry.get?_install (IdAllocator.nth_lt ..), if_pos rfl]
  have hstill : reached.ledger.jobs.get? id = some job := by
    have hsame := model.get?_serveAll hsent (Nat.le_refl _) (by omega) (hid ▸ hkept)
    rw [hbetween, ← hid] at hsame
    exact hsame.trans hlive
  -- So the last reading finds the job, under the identifier that the echo stands for.
  have hreached := model.records_serveAll hsent between
  rw [hbetween] at hreached
  have hslot : model.slot (Response.echo frame) = id := by
    rw [hecho, hid]
    exact model.slot_echoOf _ hlow
  have hversion : model.versionOf frame job =
      model.rolled job low (Response.versionField frame) :=
    model.versionOf_echoOf _ hlow (hid ▸ hecho)
  have hother : reached.ledger.repeats.previous ≠ some (Response.nonce frame) := by
    intro hprevious
    rw [hreached.repeats, ← shares_append] at hprevious
    obtain ⟨last, hlast, hnonce⟩ := Option.map_eq_some_iff.1 hprevious
    exact hnew last hlast hnonce
  rw [serve_readShare, judge_eq_some_iff.2
    ⟨frame, job, hreply, hintact, hslot ▸ hstill, hother, rfl⟩, hslot, hversion]

theorem nextReply_of_bytes {model : Model} {w : World} {data : Bytes} {rest : List Reply}
    (h : w.line.replies = .bytes data :: rest) :
    model.nextReply w = .ok (data.take model.family.resultLength) := by
  rw [nextReply, Bus.nextReply, h]
  rfl

/-- A frame that reports a nonce for identifier 24. -/
def report : Bytes :=
  [0xaa, 0x55, 0x78, 0x56, 0x34, 0x12, 0x00, 0x35, 0x00, 0x03, 0x09]

/-- The chips are silent once, and then they report. -/
def reporting : World :=
  { World.fresh .bm1370 with line := { replies := [.silence, .bytes report] } }

theorem dispatch_roundTrip_after_silence :
    let sent := (bm1370.driver.serve reporting (.sendWork { version := 0x20000000 })).2
    let reached := (bm1370.driver.serveAll sent [.sendWork {}, .readShare, .invalidate 48]).2
    (bm1370.driver.serve reached .readShare).1 =
      .share (.ok (some ⟨24, 0x12345678, 0x20006000, { version := 0x20000000 }⟩)) := by
  intro sent reached
  have hsend : bm1370.driver.serve reporting (.sendWork { version := 0x20000000 }) =
      (.sent (.ok 24), sent) := rfl
  have hreplies : reached.line.replies = [.bytes report] := by
    decide +kernel
  have hintact : Response.Intact report bm1370.family.resultLength := by
    decide +kernel
  exact (dispatch_roundTrip .bm1370 reporting reporting sent reached []
    [.sendWork {}, .readShare, .invalidate 48] [] _ { version := 0x20000000 } 24 5 report
    rfl hsend (Prod.eta _).symm (by decide) (by simp) (nextReply_of_bytes hreplies) hintact
    (by decide) rfl nofun).1

end Model

end ChipChain
