import ChipChain.Proofs.Checksum.Flips
import ChipChain.Proofs.Wire.Frame
import ChipChain.Wire.Response

/-!
# Damaged frames

What the checksums of frames notice when bits are turned over on the way. A response with
flips in its preamble is refused for the preamble; otherwise any flips within five
consecutive places are refused for the checksum, and two flips pass only if the places are
a multiple of 31 apart (`check_flipAt`). A job frame lets through no flips within sixteen
consecutive places, no odd number of flips, and no two flips (`job_flipAt`).
-/

namespace ChipChain

open Checksum

/-! ## Responses -/

namespace Response

variable {frame : Bytes}

theorem check_of_preamble_ne {first second : UInt8} {rest : Bytes}
    (h : [first, second] ≠ preamble) :
    check (first :: second :: rest) (first :: second :: rest).length =
      .error (.preamble first second) := by
  unfold check
  rw [if_neg (not_not_intro rfl)]
  exact if_pos h

theorem check_preamble_append (rest : Bytes) :
    check (preamble ++ rest) (preamble ++ rest).length =
      if five.of rest = 0#5 then .ok () else .error .checksum := by
  unfold check
  rw [if_neg (not_not_intro rfl)]
  change (if crc5Holds rest then Except.ok () else _) = _
  simp only [crc5Holds_iff]

theorem check_eq_ok_iff :
    check frame frame.length = .ok () ↔ ∃ rest, frame = preamble ++ rest ∧ five.of rest = 0#5 := by
  constructor
  · intro h
    match frame, h with
    | first :: second :: rest, h =>
        by_cases hpreamble : [first, second] = preamble
        · have hframe : first :: second :: rest = preamble ++ rest := by
            rw [← hpreamble]
            rfl
          rw [hframe, check_preamble_append] at h
          refine ⟨rest, hframe, ?_⟩
          by_contra hne
          rw [if_neg hne] at h
          cases h
        · rw [check_of_preamble_ne hpreamble] at h
          cases h
    | [_], h => cases h
    | [], h => cases h
  · rintro ⟨rest, rfl, hrest⟩
    rw [check_preamble_append, if_pos hrest]

theorem check_flipAt_preamble {s : Finset Nat} (h : check frame frame.length = .ok ())
    (hplace : ∃ i ∈ s, i < 16) :
    ∃ first second, (flipAt s frame).take 2 = [first, second] ∧
      check (flipAt s frame) frame.length = .error (.preamble first second) := by
  obtain ⟨rest, rfl, -⟩ := check_eq_ok_iff.1 h
  refine ⟨0xaa ^^^ mask s 0, 0x55 ^^^ mask s 8, rfl, ?_⟩
  have hne : [0xaa ^^^ mask s 0, 0x55 ^^^ mask s 8] ≠ preamble := by
    intro heq
    obtain ⟨hfirst, htail⟩ := List.cons.inj heq
    have hsecond := (List.cons.inj htail).1
    obtain ⟨i, hi, hlt⟩ := hplace
    have hpast := xor_mask_eq_iff.1 hfirst i hi (Nat.zero_le i)
    have hpast' := xor_mask_eq_iff.1 hsecond i hi hpast
    omega
  rw [← length_flipFrom s 0 (preamble ++ rest)]
  exact check_of_preamble_ne hne

theorem check_flipAt_rest {s : Finset Nat} (h : check frame frame.length = .ok ())
    (hplace : ∀ i ∈ s, 16 ≤ i) :
    check (flipAt s frame) frame.length =
      if five.remainder (changes s 16 (8 * frame.length - 16)) = 0#5 then .ok ()
      else .error .checksum := by
  obtain ⟨rest, rfl, hrest⟩ := check_eq_ok_iff.1 h
  have hkept : flipAt s (preamble ++ rest) = preamble ++ flipFrom s 16 rest := by
    have hfirst : (0xaa : UInt8) ^^^ mask s 0 = 0xaa :=
      xor_mask_eq_iff.2 fun i hi _ => (Nat.le_of_lt (by decide)).trans (hplace i hi)
    have hsecond : (0x55 : UInt8) ^^^ mask s 8 = 0x55 :=
      xor_mask_eq_iff.2 fun i hi _ => hplace i hi
    change (0xaa ^^^ mask s 0) :: (0x55 ^^^ mask s 8) :: flipFrom s 16 rest = _
    rw [hfirst, hsecond]
    rfl
  have hplaces : 8 * (preamble ++ rest).length - 16 = 8 * rest.length := by
    rw [List.length_append, preamble, List.length_cons, List.length_cons, List.length_nil]
    omega
  have hlength : (preamble ++ rest).length = (preamble ++ flipFrom s 16 rest).length := by
    rw [← hkept, flipAt, length_flipFrom]
  rw [hplaces, hkept, hlength, check_preamble_append]
  simp only [of_flipFrom_eq_zero_iff hrest]

/-- In an accepted frame, flips within five consecutive places are refused, for the preamble if one
of them lies in it and else for the checksum; two flips after the preamble pass exactly if their
places are a multiple of 31 apart. -/
theorem check_flipAt (h : check frame frame.length = .ok ()) :
    (∀ s : Finset Nat, s.Nonempty → (∀ i ∈ s, i < 8 * frame.length) →
      (∃ first, ∀ i ∈ s, first ≤ i ∧ i < first + 5) →
        ((∃ i ∈ s, i < 16) → ∃ first second, (flipAt s frame).take 2 = [first, second] ∧
          check (flipAt s frame) frame.length = .error (.preamble first second)) ∧
        ((∀ i ∈ s, 16 ≤ i) → check (flipAt s frame) frame.length = .error .checksum)) ∧
    ∀ i j, 16 ≤ i → i < j → j < 8 * frame.length →
      (check (flipAt {i, j} frame) frame.length = .ok () ↔ 31 ∣ j - i) := by
  constructor
  · rintro s ⟨place, hplace⟩ hwithin ⟨first, hburst⟩
    refine ⟨check_flipAt_preamble h, fun hafter => ?_⟩
    have hlow := hafter place hplace
    have hhigh := hwithin place hplace
    have hnoticed : five.remainder (changes s 16 (8 * frame.length - 16)) ≠ 0#5 :=
      remainder_changes_ne_zero five_unit hburst ⟨place, hplace, hlow, by omega⟩
    rw [check_flipAt_rest h hafter, if_neg hnoticed]
  · intro i j hfrom hlt hto
    have hafter : ∀ k ∈ ({i, j} : Finset Nat), 16 ≤ k := by
      intro k hk
      rcases Finset.mem_insert.1 hk with rfl | hk
      · exact hfrom
      · rw [Finset.mem_singleton.1 hk]
        omega
    have hperiod := remainder_pair_eq_zero_iff (n := 8 * frame.length - 16) five_unit hfrom hlt
      (by omega)
    rw [Function.isPeriodicPt_iff_minimalPeriod_dvd, minimalPeriod_five] at hperiod
    rw [check_flipAt_rest h hafter, ← hperiod]
    split
    case isTrue hzero => exact iff_of_true rfl hzero
    case isFalse hnonzero => exact iff_of_false nofun hnonzero

/-- In a chip's answer three flips close together are noticed, and so is one in the preamble; two
flips 31 places apart pass. -/
theorem check_flipAt_of_chipId :
    check [0xaa, 0x55, 0x13, 0x97, 0x18, 0x00, 0x00, 0x00, 0x06] 9 = .ok () ∧
      check (flipAt {30, 32, 34} [0xaa, 0x55, 0x13, 0x97, 0x18, 0x00, 0x00, 0x00, 0x06]) 9 =
        .error .checksum ∧
      (∃ first second, check (flipAt {15, 17}
        [0xaa, 0x55, 0x13, 0x97, 0x18, 0x00, 0x00, 0x00, 0x06]) 9 =
          .error (.preamble first second)) ∧
      check (flipAt {20, 51} [0xaa, 0x55, 0x13, 0x97, 0x18, 0x00, 0x00, 0x00, 0x06]) 9 =
        .ok () := by
  have hok : check [0xaa, 0x55, 0x13, 0x97, 0x18, 0x00, 0x00, 0x00, 0x06] 9 = .ok () := by
    decide +kernel
  obtain ⟨hburst, hpair⟩ := check_flipAt hok
  refine ⟨hok, ?_, ?_, ?_⟩
  · exact (hburst {30, 32, 34} (by decide) (by decide) ⟨30, by decide⟩).2 (by decide)
  · obtain ⟨first, second, -, herror⟩ :=
      (hburst {15, 17} (by decide) (by decide) ⟨15, by decide⟩).1 (by decide)
    exact ⟨first, second, herror⟩
  · exact (hpair 20 51 (by decide) (by decide) (by decide)).2 (by decide)

end Response

/-! ## Jobs -/

namespace Command

/-- What follows the preamble in the frame of a job: header, length byte, payload, checksum. -/
def jobBody (payload : Bytes) : Bytes :=
  let covered := [0x21, UInt8.ofNat (payload.length + 4)] ++ payload
  covered ++ Bytes.ofUInt16BE (crc16 covered)

theorem frame_job (payload : Bytes) : (job payload).frame = [0x55, 0xaa] ++ jobBody payload := by
  rw [frame, covered, header_eq, jobBody, List.append_assoc]
  rfl

theorem length_jobBody (payload : Bytes) : (jobBody payload).length = payload.length + 4 := by
  simp only [jobBody, Bytes.ofUInt16BE, List.length_append, List.length_cons, List.length_nil]
  omega

/-- Which flips the checksum of a job notices, up to the longest job. -/
theorem crc16_flipAt_ne_zero {body : Bytes} {s : Finset Nat} (h : crc16 body = 0)
    (hlong : body.length ≤ 255) (hne : s.Nonempty) (hwithin : ∀ i ∈ s, i < 8 * body.length)
    (hflips : (∃ first, ∀ i ∈ s, first ≤ i ∧ i < first + 16) ∨ Odd s.card ∨ s.card = 2) :
    crc16 (flipAt s body) ≠ 0 := by
  rw [Ne, crc16_eq_zero_iff, flipAt, of_flipFrom_eq_zero_iff (crc16_eq_zero_iff.1 h)]
  rcases hflips with ⟨first, hburst⟩ | hodd | htwo
  · obtain ⟨i, hi⟩ := hne
    have hto := hwithin i hi
    exact remainder_changes_ne_zero sixteen_unit hburst ⟨i, hi, Nat.zero_le i, by omega⟩
  · rw [← count_changes hwithin] at hodd
    exact remainder_ne_zero_of_odd parity_sixteen hodd
  · have hpair : ∀ i j, i < j → s = {i, j} →
        ¬ sixteen.remainder (changes s 0 (8 * body.length)) = 0#16 := by
      rintro i j hlt rfl
      have hto := hwithin j (by simp)
      rw [remainder_pair_eq_zero_iff sixteen_unit (Nat.zero_le i) hlt (by omega)]
      exact not_isPeriodicPt_sixteen (by omega) (by omega)
    obtain ⟨i, j, hij, hs⟩ := Finset.card_eq_two.1 htwo
    rcases Nat.lt_or_gt_of_ne hij with hlt | hlt
    · exact hpair i j hlt hs
    · exact hpair j i hlt (hs.trans (Finset.pair_comm i j))

/-- A job that fits is written as the preamble and a body: header, length byte, payload and two
checksum bytes. The checksum over the whole body is zero, and no longer so after any flips within
sixteen consecutive places, any odd number of flips, or two flips. -/
theorem job_flipAt (payload : Bytes) (h : payload.length ≤ 251) (buffer : Bytes) :
    ∃ body high low,
      (job payload).encode buffer = .ok (buffer ++ [0x55, 0xaa] ++ body) ∧
      body = [0x21, UInt8.ofNat (payload.length + 4)] ++ payload ++ [high, low] ∧
      crc16 body = 0 ∧
      ∀ s : Finset Nat, s.Nonempty → (∀ i ∈ s, i < 8 * body.length) →
        (∃ first, ∀ i ∈ s, first ≤ i ∧ i < first + 16) ∨ Odd s.card ∨ s.card = 2 →
          crc16 (flipAt s body) ≠ 0 := by
  have hlength := length_jobBody payload
  have hzero : crc16 (jobBody payload) = 0 := crc16_append_crc16 _
  have hfits : (job payload).Fits := h
  refine ⟨jobBody payload, _, _, ?_, rfl, hzero, fun s => ?_⟩
  · rw [encode_of_fits hfits, frame_job, List.append_assoc]
  · exact crc16_flipAt_ne_zero hzero (by omega)

/-- In the frame of a short job the checksum notices flips close together, two flips far apart, and
three flips. -/
theorem job_flipAt_of_two_bytes :
    ∃ body, (job [0x18, 0x01]).encode [0x07] = .ok ([0x07, 0x55, 0xaa] ++ body) ∧
      body.length = 6 ∧ crc16 body = 0 ∧ crc16 (flipAt {17, 20, 24, 32} body) ≠ 0 ∧
      crc16 (flipAt {3, 47} body) ≠ 0 ∧ crc16 (flipAt {0, 20, 40} body) ≠ 0 := by
  obtain ⟨body, high, low, hencode, rfl, hzero, hnotices⟩ :=
    job_flipAt [0x18, 0x01] (by decide) [0x07]
  refine ⟨_, hencode, rfl, hzero, ?_, ?_, ?_⟩
  · exact hnotices {17, 20, 24, 32} (by decide) (by simp) (.inl ⟨17, by decide⟩)
  · exact hnotices {3, 47} (by decide) (by simp) (.inr (.inr (by decide)))
  · exact hnotices {0, 20, 40} (by decide) (by simp) (.inr (.inl (by decide)))

end Command

end ChipChain
