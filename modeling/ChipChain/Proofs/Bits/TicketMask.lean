import ChipChain.Proofs.Chain.Sending

/-!
# Ticket masks

The reporting difficulty is set by one broadcast write of a mask: as many low ones as the
exponent of the largest power of two within the difficulty, each byte reversed on its way.
The mask that arrives is that power less one, and two difficulties are written alike exactly
if they have that power in common (`writeTicketMask_rounds`).
-/

namespace ChipChain

/-! ## Powers of two -/

/-- The largest power of two within a difficulty is the one with this exponent; no difficulty at
all counts as one. -/
def Magnitude (difficulty : UInt32) (k : Nat) : Prop :=
  2 ^ k ≤ max difficulty.toNat 1 ∧ max difficulty.toNat 1 < 2 ^ (k + 1)

theorem largestPowerOfTwo_eq (n : Nat) : largestPowerOfTwo n = 2 ^ n.log2 :=
  rfl

theorem largestPowerOfTwo_pos (n : Nat) : 0 < largestPowerOfTwo n :=
  Nat.two_pow_pos _

theorem log2_lt_of_lt {n bits : Nat} (hbits : 0 < bits) (h : n < 2 ^ bits) : n.log2 < bits := by
  by_cases hzero : n = 0
  · rw [hzero]
    exact hbits
  · exact (Nat.log2_lt hzero).2 h

theorem magnitude_log2 (difficulty : UInt32) : Magnitude difficulty difficulty.toNat.log2 := by
  by_cases hzero : difficulty.toNat = 0
  · rw [Magnitude, hzero]
    decide
  · have hone : max difficulty.toNat 1 = difficulty.toNat := Nat.max_eq_left (by omega)
    rw [Magnitude, hone]
    exact ⟨Nat.log2_self_le hzero, Nat.lt_log2_self⟩

theorem Magnitude.eq_log2 {difficulty : UInt32} {k : Nat} (h : Magnitude difficulty k) :
    k = difficulty.toNat.log2 := by
  have h' := magnitude_log2 difficulty
  have hle := (Nat.pow_lt_pow_iff_right (by decide)).1 (Nat.lt_of_le_of_lt h.1 h'.2)
  have hge := (Nat.pow_lt_pow_iff_right (by decide)).1 (Nat.lt_of_le_of_lt h'.1 h.2)
  omega

theorem two_pow_log2_le (n : UInt32) : 2 ^ n.toNat.log2 ≤ 2 ^ 31 :=
  Nat.pow_le_pow_right (by decide) (Nat.le_of_lt_succ (log2_lt_of_lt (by decide) n.toNat_lt))

theorem one_shiftLeft_clz {n : UInt32} (h : n ≠ 0) :
    n.toBitVec.clz.toNat ≤ 31 ∧
      (1#32 <<< (31 - n.toBitVec.clz.toNat)).toNat = largestPowerOfTwo n.toNat := by
  have hne : n.toBitVec ≠ 0#32 := fun hzero => h (UInt32.toBitVec_inj.1 hzero)
  have hlow := BitVec.two_pow_sub_clz_le_toNat_of_ne_zero (by decide) hne
  have hhigh := n.toBitVec.toNat_lt_two_pow_sub_clz
  have hclz : n.toBitVec.clz.toNat < 32 := BitVec.clz_lt_iff_ne_zero.2 hne
  have hlog : n.toNat.log2 = 31 - n.toBitVec.clz.toNat := by
    have hpos : n.toNat ≠ 0 := fun hzero => h (UInt32.toNat_inj.1 hzero)
    refine (Nat.log2_eq_iff hpos).2 ⟨?_, ?_⟩
    · exact hlow
    · rwa [show 32 - n.toBitVec.clz.toNat = 31 - n.toBitVec.clz.toNat + 1 by omega] at hhigh
  refine ⟨Nat.le_of_lt_succ hclz, ?_⟩
  rw [← hlog, largestPowerOfTwo_eq, ← BitVec.twoPow_eq, BitVec.toNat_twoPow]
  exact Nat.mod_eq_of_lt (Nat.lt_of_le_of_lt (two_pow_log2_le n) (by decide))

/-! ## The mask and its bytes -/

theorem toNat_difficultyMask (difficulty : UInt32) :
    (difficultyMask difficulty).toNat = 2 ^ difficulty.toNat.log2 - 1 := by
  have hpow := two_pow_log2_le difficulty
  rw [difficultyMask, largestPowerOfTwo_eq, UInt32.toNat_ofNat']
  exact Nat.mod_eq_of_lt (by omega)

theorem toNat_difficultyMask_add_one (difficulty : UInt32) :
    (difficultyMask difficulty + 1).toNat = 2 ^ difficulty.toNat.log2 := by
  have hpow := two_pow_log2_le difficulty
  have hpos := Nat.two_pow_pos difficulty.toNat.log2
  rw [UInt32.toNat_add, toNat_difficultyMask]
  simp only [UInt32.reduceToNat]
  omega

/-- The mask depends on the difficulty's power of two, and tells it. -/
theorem difficultyMask_eq_iff {difficulty other : UInt32} :
    difficultyMask difficulty = difficultyMask other ↔
      difficulty.toNat.log2 = other.toNat.log2 := by
  constructor
  · intro h
    have hnext := toNat_difficultyMask_add_one difficulty
    rw [h, toNat_difficultyMask_add_one] at hnext
    exact Nat.pow_right_injective (Nat.le_refl 2) hnext.symm
  · intro h
    rw [← UInt32.toNat_inj, toNat_difficultyMask, toNat_difficultyMask, h]

theorem difficultyMask_add_one (difficulty : UInt32) :
    difficultyMask (difficultyMask difficulty + 1) = difficultyMask difficulty := by
  rw [difficultyMask_eq_iff, toNat_difficultyMask_add_one, Nat.log2_two_pow]

theorem difficultyMask_and_add_one (difficulty : UInt32) :
    difficultyMask difficulty &&& (difficultyMask difficulty + 1) = 0 := by
  rw [← UInt32.toNat_inj, UInt32.toNat_and, toNat_difficultyMask, toNat_difficultyMask_add_one,
    Nat.and_comm, Nat.and_two_pow_sub_one_eq_mod, Nat.mod_self]
  rfl

theorem difficultyMask_le (difficulty : UInt32) : difficultyMask difficulty ≤ difficulty := by
  have hmagnitude := (magnitude_log2 difficulty).1
  rw [UInt32.le_iff_toNat_le, toNat_difficultyMask]
  omega

theorem reverseBits_reverseBits (byte : UInt8) : reverseBits (reverseBits byte) = byte := by
  simp [reverseBits]

theorem ticketMaskValue_bytes (difficulty : UInt32) :
    ∃ b3 b2 b1 b0, ticketMaskBytes difficulty = [b3, b2, b1, b0] ∧
      ticketMaskValue b3 b2 b1 b0 = difficultyMask difficulty := by
  refine ⟨_, _, _, _, rfl, ?_⟩
  simp only [ticketMaskValue, reverseBits_reverseBits]
  exact Bytes.toUInt32BE_ofUInt32BE _

theorem ofUInt32BE_ticketMaskWord (difficulty : UInt32) :
    Bytes.ofUInt32BE (ticketMaskWord difficulty) = ticketMaskBytes difficulty :=
  Bytes.ofUInt32BE_toUInt32BE ..

theorem ticketMaskBytes_eq_iff {difficulty other : UInt32} :
    ticketMaskBytes difficulty = ticketMaskBytes other ↔
      difficulty.toNat.log2 = other.toNat.log2 := by
  rw [← difficultyMask_eq_iff]
  constructor
  · intro h
    obtain ⟨b3, b2, b1, b0, hbytes, hvalue⟩ := ticketMaskValue_bytes difficulty
    obtain ⟨c3, c2, c1, c0, hother, hvalue'⟩ := ticketMaskValue_bytes other
    rw [hbytes, hother] at h
    cases h
    rw [← hvalue, hvalue']
  · intro h
    rw [ticketMaskBytes, ticketMaskBytes, h]

/-! ## The write -/

namespace Bus

/-- The broadcast write of four bytes to the ticket mask register, as it stands on the wire. -/
def ticketFrame (bytes : Bytes) : Bytes :=
  let covered := [0x51, 9, 0, 0x14] ++ bytes
  [0x55, 0xaa] ++ covered ++ [crc5 covered]

theorem frame_ticketMask (difficulty : UInt32) :
    (Command.writeAll Register.ticketMask (ticketMaskWord difficulty)).frame =
      ticketFrame (ticketMaskBytes difficulty) := by
  have hcovered : (Command.writeAll Register.ticketMask (ticketMaskWord difficulty)).covered =
      [0x51, 9, 0, 0x14] ++ ticketMaskBytes difficulty := by
    rw [← ofUInt32BE_ticketMaskWord, Command.covered, Command.header_eq]
    rfl
  rw [Command.frame, hcovered]
  rfl

theorem read?_ticketFrame (difficulty : UInt32) :
    Command.read? (ticketFrame (ticketMaskBytes difficulty)) =
      some (.writeRegister true 0 Register.ticketMask (ticketMaskWord difficulty), []) := by
  have hfits : (Command.writeAll Register.ticketMask (ticketMaskWord difficulty)).Fits := trivial
  have hread := Command.read?_frame_append hfits []
  rwa [List.append_nil, frame_ticketMask] at hread

theorem ticketFrame_eq_iff {difficulty other : UInt32} :
    ticketFrame (ticketMaskBytes difficulty) = ticketFrame (ticketMaskBytes other) ↔
      difficulty.toNat.log2 = other.toNat.log2 := by
  rw [← ticketMaskBytes_eq_iff]
  constructor
  · intro h
    simp only [ticketFrame, List.append_assoc] at h
    have hbytes := List.append_cancel_left (List.append_cancel_left h)
    exact List.append_inj_left' hbytes (by simp)
  · intro h
    rw [h]

theorem writeTicketMask_transmits (difficulty : UInt32) (w : World) :
    let sending := w.line.transmit w.clock (ticketFrame (ticketMaskBytes difficulty))
    ∃ journal, (writeTicketMask difficulty).run w =
      (sending.1.mapError ChainError.link, { w with line := sending.2, journal }) := by
  let told := w.record
    ⟨.info, source, "Setting job difficulty mask",
      [("mask", toString (difficultyMask difficulty))]⟩
  obtain ⟨journal, hsent⟩ :=
    run_send (.writeAll Register.ticketMask (ticketMaskWord difficulty)) told
  rw [frame_ticketMask] at hsent
  exact ⟨journal, hsent⟩

/-- Setting a difficulty sends one frame, a broadcast write of the ticket mask register. Read back,
the mask is the largest power of two within the difficulty, less one: a run of low ones that does
not exceed the difficulty, found without leaving the word. The number after the mask is written
as the difficulty was, and so is any difficulty with the same power of two, but no other. -/
theorem writeTicketMask_rounds (difficulty : UInt32) :
    (∀ w : World,
      let sending := w.line.transmit w.clock (ticketFrame (ticketMaskBytes difficulty))
      ∃ journal, (writeTicketMask difficulty).run w =
        (sending.1.mapError ChainError.link, { w with line := sending.2, journal })) ∧
    (Command.read? (ticketFrame (ticketMaskBytes difficulty)) =
        some (.writeRegister true 0 0x14 (ticketMaskWord difficulty), []) ∧
      Bytes.ofUInt32BE (ticketMaskWord difficulty) = ticketMaskBytes difficulty) ∧
    (0 < largestPowerOfTwo difficulty.toNat ∧
      (difficulty ≠ 0 → difficulty.toBitVec.clz.toNat ≤ 31 ∧
        (1#32 <<< (31 - difficulty.toBitVec.clz.toNat)).toNat =
          largestPowerOfTwo difficulty.toNat)) ∧
    ∃ k, Magnitude difficulty k ∧
      (∃ b3 b2 b1 b0, ticketMaskBytes difficulty = [b3, b2, b1, b0] ∧
        let mask := ticketMaskValue b3 b2 b1 b0
        mask.toNat = 2 ^ k - 1 ∧ (mask + 1).toNat = 2 ^ k ∧ mask &&& (mask + 1) = 0 ∧
          mask ≤ difficulty ∧ ticketMaskBytes (mask + 1) = [b3, b2, b1, b0]) ∧
      ∀ other k', Magnitude other k' →
        (ticketFrame (ticketMaskBytes difficulty) = ticketFrame (ticketMaskBytes other) ↔
          k = k') := by
  refine ⟨writeTicketMask_transmits difficulty,
    ⟨read?_ticketFrame difficulty, ofUInt32BE_ticketMaskWord difficulty⟩,
    ⟨largestPowerOfTwo_pos _, fun hne => one_shiftLeft_clz hne⟩,
    difficulty.toNat.log2, magnitude_log2 difficulty, ?_, ?_⟩
  · obtain ⟨b3, b2, b1, b0, hbytes, hvalue⟩ := ticketMaskValue_bytes difficulty
    refine ⟨b3, b2, b1, b0, hbytes, ?_⟩
    rw [hvalue]
    refine ⟨toNat_difficultyMask _, toNat_difficultyMask_add_one _, difficultyMask_and_add_one _,
      difficultyMask_le _, ?_⟩
    rw [← hbytes, ticketMaskBytes, difficultyMask_add_one]
    rfl
  · intro other k' hother
    rw [hother.eq_log2, ticketFrame_eq_iff]

/-- A thousand is rounded down to 512. -/
example : ticketMaskBytes 1000 = [0x00, 0x00, 0x80, 0xff] := by
  decide

end Bus

end ChipChain
