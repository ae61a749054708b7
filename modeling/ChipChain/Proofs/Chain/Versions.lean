import ChipChain.Proofs.Bits.Counting
import ChipChain.Proofs.Chain.History

/-!
# Versions that chips roll

A step on a job's version counts on the bits of the job's mask exactly if the carry finds such a
bit wherever it sets down, which a mask with gaps need not offer. A result of chips that roll in
midstates carries the job's version after as many steps as the frame names, so it differs from
the job's only under the mask while the lowest run of the mask has room for them. The main
statement is `version_counts`.
-/

namespace ChipChain

open Masked

theorem Model.judge_version_eq {l : Ledger} {received : Bytes} {share : Share}
    (h : Model.bm1397.judge l (.ok received) = .ok (some share)) :
    share.version = (incrementMasked · share.job.versionMask)^[(Response.echo received &&& 3).toNat]
      share.job.version := by
  obtain ⟨_, job, hreceived, -, -, -, rfl⟩ := Model.judge_eq_some_iff.1 h
  cases hreceived
  rfl

/-- While a bit of the mask is clear in the value, a step counts on the bits of the mask exactly if
the lowest run of the mask has room, or every other bit above that run, up to the first that is
clear, is in the mask. A version that chips rolled in midstates is as many steps away from the
job's as the frame says, and they all count while the lowest run has room for them. -/
theorem version_counts (value mask : UInt32) :
    ((∃ i, mask.toBitVec.getLsbD i = true ∧ value.toBitVec.getLsbD i = false) →
      (∃ low top free, LowestRun mask.toBitVec low top ∧
        FirstFree value.toBitVec mask.toBitVec free) ∧
      ∀ low top free, LowestRun mask.toBitVec low top →
        FirstFree value.toBitVec mask.toBitVec free →
          (CountsUp mask.toBitVec value.toBitVec 1 (incrementMasked value mask).toBitVec ↔
            ∀ i, top ≤ i → i ≤ free →
              mask.toBitVec.getLsbD i = decide ((i - top) % 2 = 1))) ∧
    ∀ (w : World) (share : Share),
      (Model.bm1397.driver.readShare.run w).1 = .ok (some share) →
        share.job.version = value → share.job.versionMask = mask →
          ∃ received, Model.bm1397.nextReply w = .ok received ∧
            let steps := (Response.echo received &&& 3).toNat
            share.version = (incrementMasked · mask)^[steps] value ∧
            ∀ low top, LowestRun mask.toBitVec low top →
              field value.toBitVec low top + steps < 2 ^ (top - low) →
                CountsUp mask.toBitVec value.toBitVec steps share.version.toBitVec := by
  constructor
  · intro hclear
    obtain ⟨i, hmasked, -⟩ := id hclear
    have hmask : mask.toBitVec ≠ 0#32 := by
      intro hzero
      simp [hzero] at hmasked
    obtain ⟨low, top, hrun⟩ := exists_lowestRun hmask
    obtain ⟨free, hfree⟩ := exists_firstFree hclear
    exact ⟨⟨low, top, free, hrun, hfree⟩, fun low top free => countsUp_increment_iff⟩
  · rintro w share hshare rfl rfl
    obtain ⟨journal, hrun⟩ := Model.run_readShare .bm1397 w
    rw [hrun] at hshare
    obtain ⟨received, job, hreply, -⟩ := Model.judge_eq_some_iff.1 hshare
    rw [hreply] at hshare
    have hversion := Model.judge_version_eq hshare
    refine ⟨received, hreply, hversion, fun low top hlowest hroom => ?_⟩
    rw [hversion, toBitVec_iterate_incrementMasked]
    exact hlowest.countsUp_iterate hroom

/-- The chips report identifier 4 and the version three steps after that of its job. -/
def threeSteps : World :=
  { World.fresh .bm1397 with
    line := { replies := [.bytes [0xaa, 0x55, 0x78, 0x56, 0x34, 0x12, 0x00, 0x07, 0x05]] } }

/-- A mask of every other bit offers one wherever the carry sets down, and a mask of sixteen bits
that stand together has room for three steps. -/
theorem version_counts_of_room :
    CountsUp (0b10101 : UInt32).toBitVec (0b00101 : UInt32).toBitVec 1
      (incrementMasked 0b00101 0b10101).toBitVec ∧
    let job : Job := { version := 0x20000000, versionMask := 0x1fffe000 }
    let reached := (Model.bm1397.driver.serve threeSteps (.sendWork job)).2
    (Model.bm1397.driver.readShare.run reached).1 =
        .ok (some ⟨4, 0x12345678, 0x20006000, job⟩) ∧
      CountsUp job.versionMask.toBitVec job.version.toBitVec 3 (0x20006000 : UInt32).toBitVec := by
  constructor
  · have hclear : ∃ i, (0b10101 : UInt32).toBitVec.getLsbD i = true ∧
        (0b00101 : UInt32).toBitVec.getLsbD i = false := ⟨4, by decide⟩
    have hrun : LowestRun (0b10101 : UInt32).toBitVec 0 1 :=
      ⟨by decide, by decide, by decide, by decide⟩
    have hfree : FirstFree (0b00101 : UInt32).toBitVec (0b10101 : UInt32).toBitVec 4 :=
      ⟨by decide, by decide, by decide⟩
    exact (((version_counts 0b00101 0b10101).1 hclear).2 0 1 4 hrun hfree).2 (by decide)
  · intro job reached
    have hshare : (Model.bm1397.driver.readShare.run reached).1 =
        .ok (some ⟨4, 0x12345678, 0x20006000, job⟩) := by decide +kernel
    have hreply : Model.bm1397.nextReply reached =
        .ok [0xaa, 0x55, 0x78, 0x56, 0x34, 0x12, 0x00, 0x07, 0x05] := by decide +kernel
    obtain ⟨received, hreceived, -, hcounts⟩ :=
      (version_counts 0x20000000 0x1fffe000).2 reached _ hshare rfl rfl
    obtain rfl := Except.ok.inj (hreply.symm.trans hreceived)
    have hrun : LowestRun (0x1fffe000 : UInt32).toBitVec 13 29 :=
      ⟨by decide, by decide, by decide, by decide⟩
    exact ⟨hshare, hcounts 13 29 hrun (by decide)⟩

/-- Under a mask of the bits 13 and 16, the step from a version that has bit 13 sets bit 15: outside
of the mask, and the number under the mask falls from one to zero. -/
theorem step_lands_in_gap :
    (∃ i, (0x12000 : UInt32).toBitVec.getLsbD i = true ∧
        (0x20002000 : UInt32).toBitVec.getLsbD i = false) ∧
      incrementMasked 0x20002000 0x12000 = 0x20008000 ∧
      (0x12000#32).getLsbD 15 = false ∧
      (0x20008000#32).getLsbD 15 ≠ (0x20002000#32).getLsbD 15 ∧
      reading 0x20002000#32 0x12000#32 = 1 ∧ reading 0x20008000#32 0x12000#32 = 0 ∧
      ¬ CountsUp 0x12000#32 0x20002000#32 1 0x20008000#32 := by
  refine ⟨⟨16, by decide⟩, by decide +kernel, by decide, by decide, by decide, by decide, ?_⟩
  intro hcounts
  exact absurd (hcounts.outside 15 (by decide)) (by decide)

end ChipChain
