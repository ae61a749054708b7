import ChipChain.Proofs.Chain.Sending

/-!
# What a payload carries

Each of the two layouts has one length for all jobs, and its reader takes back exactly the
fields that a payload carries: in the midstate layout the time, the target and the like, the
end of the merkle root, and the first four midstates, told apart from the zeros that fill
empty slots by their number. A frame therefore says these fields of a job and nothing else
of it (`jobFrame_carries`).
-/

namespace ChipChain

/-! ## The fields of a job -/

/-- What a midstate payload carries of a job. -/
def Job.midstateFields (job : Job) (id : UInt8) : MidstateFields where
  id := id
  count := UInt8.ofNat (min job.midstates.length 4)
  startingNonce := job.startingNonce
  target := job.target
  ntime := job.ntime
  merkleTail := job.merkleRoot.toList.drop 28
  midstates := (job.midstates.take 4).map Vector.toList

/-- What a rolling payload carries of a job. -/
def Job.rollingFields (job : Job) (id : UInt8) : RollingFields where
  id := id
  startingNonce := job.startingNonce
  target := job.target
  ntime := job.ntime
  merkleRootBE := job.merkleRootBE.toList
  prevBlockHashBE := job.prevBlockHashBE.toList
  version := job.version

theorem Job.toNat_count (job : Job) (id : UInt8) :
    (job.midstateFields id).count.toNat = min job.midstates.length 4 := by
  have hfew : min job.midstates.length 4 < 256 := by omega
  exact UInt8.toNat_ofNat_of_lt' hfew

/-! ## Midstates in their slots -/

theorem Digest.toList_injective : Function.Injective (Vector.toList : Digest → Bytes) :=
  fun _ _ h => Vector.toList_inj.1 h

/-- The four midstates as they are sent, empty slots filled. -/
def Job.slots (job : Job) : List Digest :=
  (List.range midstateSlots).map job.midstateAt

theorem Job.midstateAt_of_lt (job : Job) {slot : Nat} (h : slot < 4) :
    job.midstateAt slot = (job.midstates.take 4)[slot]?.getD .zero := by
  rw [List.getElem?_take_of_lt h, midstateAt]

theorem Job.slots_congr {job other : Job}
    (h : job.midstates.take 4 = other.midstates.take 4) : job.slots = other.slots := by
  apply List.map_congr_left
  intro slot hslot
  have hlt : slot < 4 := List.mem_range.1 hslot
  rw [job.midstateAt_of_lt hlt, other.midstateAt_of_lt hlt, h]

theorem Job.take_slots (job : Job) :
    job.slots.take (min job.midstates.length 4) = job.midstates.take 4 := by
  apply List.ext_getElem
  · simp [slots, midstateSlots]
    omega
  · intro slot hslot hmidstate
    have hlength : slot < job.midstates.length := by
      rw [List.length_take] at hmidstate
      omega
    simp [slots, midstateAt, hlength]

theorem chunks32_flatMap {count : Nat} {digests : List Digest} (h : count ≤ digests.length) :
    chunks32 count (digests.flatMap Vector.toList) =
      (digests.take count).map Vector.toList := by
  induction count generalizing digests with
  | zero => rfl
  | succ count ih =>
      cases digests with
      | nil => exact absurd h (by simp)
      | cons digest rest =>
          have hrest : count ≤ rest.length := Nat.le_of_succ_le_succ h
          have hlength := digest.length_toList
          rw [chunks32, List.flatMap_cons, List.take_left' hlength, List.drop_left' hlength,
            ih hrest, List.take_succ_cons, List.map_cons]

/-! ## Payloads and their readers -/

theorem Job.midstatePayload_eq (job : Job) (id : UInt8) :
    job.midstatePayload id =
      id :: (job.midstateFields id).count :: (Bytes.ofUInt32LE job.startingNonce ++
        Bytes.ofUInt32LE job.target ++ Bytes.ofUInt32LE job.ntime ++
        job.merkleRoot.toList.drop 28 ++ job.slots.flatMap Vector.toList) := by
  rw [slots, List.flatMap_map]
  simp [midstatePayload, midstateFields, midstateSlots]

theorem Job.length_slots (job : Job) : job.slots.length = 4 := by
  simp [slots, midstateSlots]

theorem Job.length_midstatePayload (job : Job) (id : UInt8) :
    (job.midstatePayload id).length = 146 := by
  rw [midstatePayload_eq]
  simp [Bytes.ofUInt32LE, length_slots]

theorem Job.length_rollingPayload (job : Job) (id : UInt8) :
    (job.rollingPayload id).length = 82 := by
  simp [rollingPayload, Bytes.ofUInt32LE]

theorem read?_midstatePayload (job : Job) (id : UInt8) :
    MidstateFields.read? (job.midstatePayload id) = some (job.midstateFields id) := by
  have hroom : (job.slots.flatMap Vector.toList).length = 32 * midstateSlots := by
    simp [job.length_slots, midstateSlots]
  have hmidstates : chunks32 (job.midstateFields id).count.toNat
      (job.slots.flatMap Vector.toList) = (job.midstates.take 4).map Vector.toList := by
    have hfew : (job.midstateFields id).count.toNat ≤ job.slots.length := by
      rw [job.toNat_count, job.length_slots]
      exact Nat.min_le_right ..
    rw [chunks32_flatMap hfew, job.toNat_count, job.take_slots]
  have htail : (job.merkleRoot.toList.drop 28).length = 4 := by simp
  obtain ⟨m0, m1, m2, m3, htail⟩ := List.length_eq_four.1 htail
  rw [job.midstatePayload_eq, htail]
  simp only [Bytes.ofUInt32LE, List.cons_append, List.nil_append, MidstateFields.read?,
    if_pos hroom, hmidstates, Bytes.toUInt32LE, Bytes.toUInt32BE_ofUInt32BE]
  rw [← htail]
  rfl

theorem read?_rollingPayload (job : Job) (id : UInt8) :
    RollingFields.read? (job.rollingPayload id) = some (job.rollingFields id) := by
  have hroot := job.merkleRootBE.length_toList
  have hhash := job.prevBlockHashBE.length_toList
  have hdigests : (job.merkleRootBE.toList ++ job.prevBlockHashBE.toList).length = 64 := by
    rw [List.length_append, hroot, hhash]
  simp only [Job.rollingPayload, Bytes.ofUInt32LE, List.cons_append, List.nil_append,
    RollingFields.read?, List.drop_left' hdigests]
  simp only [List.append_assoc, List.take_left' hroot, List.drop_left' hroot,
    List.take_left' hhash, Bytes.toUInt32LE, Bytes.toUInt32BE_ofUInt32BE, Job.rollingFields]

/-! ## Jobs alike -/

theorem midstatePayload_congr {job other : Job} {id id' : UInt8}
    (h : job.midstateFields id = other.midstateFields id') :
    job.midstatePayload id = other.midstatePayload id' := by
  have hmidstates : job.midstates.take 4 = other.midstates.take 4 :=
    List.map_injective_iff.2 Digest.toList_injective (congrArg MidstateFields.midstates h)
  rw [Job.midstatePayload_eq, Job.midstatePayload_eq, ← h, Job.slots_congr hmidstates]
  simp only [Job.midstateFields, MidstateFields.mk.injEq] at h
  obtain ⟨rfl, -, hnonce, htarget, htime, htail, -⟩ := h
  rw [hnonce, htarget, htime, htail]

theorem rollingPayload_congr {job other : Job} {id id' : UInt8}
    (h : job.rollingFields id = other.rollingFields id') :
    job.rollingPayload id = other.rollingPayload id' := by
  simp only [Job.rollingFields, RollingFields.mk.injEq] at h
  obtain ⟨rfl, hnonce, htarget, htime, hroot, hhash, hversion⟩ := h
  simp only [Job.rollingPayload, hnonce, htarget, htime, hroot, hhash, hversion]

/-! ## Frames -/

inductive PayloadFields where
  | midstate (fields : MidstateFields)
  | rolling (fields : RollingFields)
  deriving DecidableEq, Repr

namespace Model

def payloadLength : Model → Nat
  | .bm1397 => 146
  | _ => 82

/-- What the chips of a model are told of a job. -/
def payloadFields : Model → Job → UInt8 → PayloadFields
  | .bm1397, job, id => .midstate (job.midstateFields id)
  | _, job, id => .rolling (job.rollingFields id)

/-- Read a payload as the chips of a model do. -/
def readPayload? : Model → Bytes → Option PayloadFields
  | .bm1397, payload => (MidstateFields.read? payload).map .midstate
  | _, payload => (RollingFields.read? payload).map .rolling

theorem length_payload (model : Model) (job : Job) (id : UInt8) :
    (model.payload job id).length = model.payloadLength := by
  cases model with
  | bm1397 => exact job.length_midstatePayload id
  | _ => exact job.length_rollingPayload id

theorem readPayload?_payload (model : Model) (job : Job) (id : UInt8) :
    model.readPayload? (model.payload job id) = some (model.payloadFields job id) := by
  cases model with
  | bm1397 => exact congrArg (Option.map _) (read?_midstatePayload job id)
  | _ => exact congrArg (Option.map _) (read?_rollingPayload job id)

theorem payload_eq_iff (model : Model) {job other : Job} {id id' : UInt8} :
    model.payload job id = model.payload other id' ↔
      model.payloadFields job id = model.payloadFields other id' := by
  constructor
  · intro h
    have hread := model.readPayload?_payload job id
    rw [h, readPayload?_payload] at hread
    exact (Option.some.inj hread).symm
  · intro h
    cases model with
    | bm1397 => exact midstatePayload_congr (PayloadFields.midstate.inj h)
    | _ => exact rollingPayload_congr (PayloadFields.rolling.inj h)

theorem jobFrame_eq_iff (model : Model) {job other : Job} {id id' : UInt8} :
    model.jobFrame job id = model.jobFrame other id' ↔
      model.payloadFields job id = model.payloadFields other id' := by
  rw [jobFrame, jobFrame, Command.frame_eq_iff (model.fits_payload job id)
    (model.fits_payload other id'), Command.job.injEq, payload_eq_iff]

/-- Sending a job transmits its frame and fails only if the link does. -/
theorem sendWork_transmits (model : Model) (job : Job) (w : World) :
    let id := w.ledger.ids.next.1
    let sending := w.line.transmit w.clock (model.jobFrame job id)
    ∃ journal, (model.driver.sendWork job).run w =
      ((sending.1.mapError ChainError.link).map fun _ => id,
        { w with ledger := w.ledger.issue job, line := sending.2, journal }) := by
  intro id sending
  obtain ⟨source, hsendWork⟩ := model.sendWork_eq
  let w' := { w with ledger := w.ledger.issue job }.record
    ⟨.trace, source, "Sending job", [("job_id", toString id)]⟩
  have hrun : (Driver.dispatch source Bus.send model.payload job).run w =
      (Bus.send (.job (model.payload job id)) >>= fun _ => pure id).run w' := rfl
  obtain ⟨journal, hsent⟩ := Bus.run_send (.job (model.payload job id)) w'
  have hsending : w'.line.transmit w'.clock (Command.job (model.payload job id)).frame = sending :=
    rfl
  rw [Command.oversized?_of_fits (model.fits_payload job id), hsending] at hsent
  refine ⟨journal, ?_⟩
  rw [hsendWork, hrun, Routine.run_bind, hsent]
  cases sending.1 <;> rfl

/-- The payload of a job has one length, so encoding it never fails, and a driver that sends it
fails only if the link does. From the payload the reader takes back what the chips are told: in
the midstate layout the identifier, nonce, target and time, the end of the merkle root, the
number of midstates up to four, and the first four of these; in the rolling layout the
identifier, nonce, target, time, merkle root, previous block hash and version. Jobs that differ
in any of these have different payloads and frames, and all others the same. -/
theorem jobFrame_carries (model : Model) (job : Job) (id : UInt8) :
    (model.payload job id).length = model.payloadLength ∧
    (∀ buffer, (Command.job (model.payload job id)).encode buffer =
      .ok (buffer ++ model.jobFrame job id)) ∧
    (∀ w : World,
      let next := w.ledger.ids.next.1
      let sending := w.line.transmit w.clock (model.jobFrame job next)
      ∃ journal, (model.driver.sendWork job).run w =
        ((sending.1.mapError ChainError.link).map fun _ => next,
          { w with ledger := w.ledger.issue job, line := sending.2, journal })) ∧
    model.readPayload? (model.payload job id) = some (model.payloadFields job id) ∧
    (job.midstateFields id).count.toNat = min job.midstates.length 4 ∧
    ∀ (other : Job) (id' : UInt8),
      (model.payload job id = model.payload other id' ↔
        model.payloadFields job id = model.payloadFields other id') ∧
      (model.jobFrame job id = model.jobFrame other id' ↔
        model.payloadFields job id = model.payloadFields other id') := by
  refine ⟨model.length_payload job id, ?_, model.sendWork_transmits job,
    model.readPayload?_payload job id, job.toNat_count id, ?_⟩
  · intro buffer
    exact Command.encode_of_fits (model.fits_payload job id) buffer
  · intro other id'
    exact ⟨model.payload_eq_iff, model.jobFrame_eq_iff⟩

/-- A midstate of zeros fills its slot with the same bytes as an absent one; the number of midstates
tells them apart. -/
example :
    let zero : Job := { midstates := [.zero] }
    zero.slots = Job.slots {} ∧ Model.bm1397.jobFrame zero 4 ≠ Model.bm1397.jobFrame {} 4 := by
  decide +kernel

end Model

end ChipChain
