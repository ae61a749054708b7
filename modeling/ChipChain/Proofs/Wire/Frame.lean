import ChipChain.Proofs.Bytes
import ChipChain.Wire.Decode

/-!
# Frames, written and read

What writing a command does to the buffer, how long a frame is and what it ends
in, and that the reader takes back exactly the frames of commands that fit.
Reading inverts writing part by part: the header byte, the length byte, the
checksum, and from these the frame in front of any further bytes.
-/

namespace ChipChain.Command

/-! ## Commands that fit -/

/-- Only a job can be too long for a frame. -/
def Fits : Command → Prop
  | .job payload => payload.length ≤ maxPayload
  | _ => True

instance : DecidablePred Fits := fun c => by
  cases c <;> unfold Fits <;> infer_instance

theorem oversized?_of_fits {c : Command} (h : c.Fits) : c.oversized? = none := by
  cases c with
  | job payload => simpa [oversized?, Fits] using h
  | _ => rfl

theorem not_fits_iff {c : Command} :
    ¬ c.Fits ↔ ∃ payload, c = .job payload ∧ maxPayload < payload.length := by
  cases c <;> simp [Fits]

theorem length_lt_of_fits {c : Command} (h : c.Fits) : c.length < 256 := by
  cases c with
  | job payload =>
      simp only [Fits, maxPayload] at h
      simp only [length, content, checksumLength]
      omega
  | _ => simp [length, content, checksumLength, Bytes.ofUInt32BE]

theorem fits_of_length_lt {c : Command} (h : c.length < 256) : c.Fits := by
  cases c with
  | job payload =>
      simp only [length, content, checksumLength] at h
      simp only [Fits, maxPayload]
      omega
  | _ => trivial

theorem toNat_length_of_fits {c : Command} (h : c.Fits) :
    (UInt8.ofNat c.length).toNat = c.length :=
  UInt8.toNat_ofNat_of_lt' (length_lt_of_fits h)

/-! ## Writing -/

/-- A command that fits appends its frame; one that does not leaves the buffer as it was. -/
theorem run_write (c : Command) (buffer : Bytes) :
    c.write.run.run buffer =
      match c.oversized? with
      | some e => (.error e, buffer)
      | none => (.ok (), buffer ++ c.frame) := by
  unfold write
  cases c.oversized? with
  | some e => rfl
  | none =>
      change (Except.ok (), _) = _
      simp [frame, covered]

theorem run_write_of_fits {c : Command} (h : c.Fits) (buffer : Bytes) :
    c.write.run.run buffer = (.ok (), buffer ++ c.frame) := by
  rw [run_write, oversized?_of_fits h]

theorem run_write_of_not_fits {c : Command} (h : ¬ c.Fits) (buffer : Bytes) :
    c.write.run.run buffer = (.error ⟨c.content.length⟩, buffer) := by
  obtain ⟨payload, rfl, hlong⟩ := not_fits_iff.1 h
  rw [run_write, oversized?, if_pos hlong]
  rfl

theorem encode_nil (c : Command) :
    c.encode [] =
      match c.oversized? with
      | some e => .error e
      | none => .ok c.frame := by
  rw [encode, run_write]
  cases c.oversized? <;> rfl

theorem encode_of_fits {c : Command} (h : c.Fits) (buffer : Bytes) :
    c.encode buffer = .ok (buffer ++ c.frame) := by
  rw [encode, run_write_of_fits h]

/-! ## The parts of a frame -/

theorem length_checksum (c : Command) (covered : Bytes) :
    (c.checksum covered).length = c.checksumLength := by
  cases c <;> rfl

theorem length_frame (c : Command) : c.frame.length = c.length + 2 := by
  simp only [frame, preamble, covered, length, List.length_append, length_checksum,
    List.length_cons, List.length_nil]
  omega

theorem frame_append (c : Command) (rest : Bytes) :
    c.frame ++ rest =
      0x55 :: 0xaa :: c.header :: UInt8.ofNat c.length ::
        (c.content ++ (c.checksum c.covered ++ rest)) := by
  simp [frame, preamble, covered]

theorem header_eq (c : Command) :
    c.header =
      match c with
      | .setAddress _ => 0x40
      | .writeRegister broadcast _ _ _ => if broadcast then 0x51 else 0x41
      | .readRegister broadcast _ _ => if broadcast then 0x52 else 0x42
      | .chainInactive => 0x53
      | .job _ => 0x21 := by
  cases c with
  | writeRegister broadcast => dsimp only [header]; cases broadcast <;> decide
  | readRegister broadcast => dsimp only [header]; cases broadcast <;> decide
  | _ => dsimp only [header]; decide

theorem checksumLengthOf_header (c : Command) : checksumLengthOf c.header = c.checksumLength := by
  rw [header_eq]
  cases c with
  | writeRegister broadcast => cases broadcast <;> rfl
  | readRegister broadcast => cases broadcast <;> rfl
  | _ => rfl

theorem checksumOf_header (c : Command) (covered : Bytes) :
    checksumOf c.header covered = c.checksum covered := by
  rw [header_eq]
  cases c with
  | writeRegister broadcast => cases broadcast <;> rfl
  | readRegister broadcast => cases broadcast <;> rfl
  | _ => rfl

/-! ## Headers and contents -/

theorem ofParts?_eq (header kind : UInt8) (broadcast : Bool) (content : Bytes)
    (hjob : header ≠ 0x21) (hkind : header &&& 0xef = kind)
    (hflag : decide (header &&& 0x10 ≠ 0) = broadcast) :
    ofParts? header content = ofKind? kind broadcast content := by
  rw [ofParts?, if_neg hjob, hkind, hflag]

/-- A byte is its kind, with the broadcast flag set or clear. -/
theorem kind_or_flag (header : UInt8) :
    (header &&& 0xef) ||| (if decide (header &&& 0x10 ≠ 0) then 0x10 else 0) = header := by
  obtain ⟨bits⟩ := header
  revert bits
  decide +kernel

theorem ofParts?_header_content (c : Command) : ofParts? c.header c.content = some c := by
  rw [header_eq]
  cases c with
  | setAddress address => exact ofParts?_eq 0x40 0x40 false _ (by decide) (by decide) (by decide)
  | writeRegister broadcast chip register value =>
      have hread : ofKind? 0x41 broadcast (writeRegister broadcast chip register value).content =
          some (writeRegister broadcast chip register value) :=
        congrArg (fun value => some (writeRegister broadcast chip register value))
          (Bytes.toUInt32BE_ofUInt32BE value)
      rw [← hread]
      cases broadcast with
      | false => exact ofParts?_eq 0x41 0x41 false _ (by decide) (by decide) (by decide)
      | true => exact ofParts?_eq 0x51 0x41 true _ (by decide) (by decide) (by decide)
  | readRegister broadcast chip register =>
      cases broadcast with
      | false => exact ofParts?_eq 0x42 0x42 false _ (by decide) (by decide) (by decide)
      | true => exact ofParts?_eq 0x52 0x42 true _ (by decide) (by decide) (by decide)
  | chainInactive => exact ofParts?_eq 0x53 0x43 true _ (by decide) (by decide) (by decide)
  | job payload => rfl

theorem header_content_of_ofKind? {kind : UInt8} {broadcast : Bool} {content : Bytes}
    {c : Command} (h : ofKind? kind broadcast content = some c) :
    c.header = kind ||| (if broadcast then 0x10 else 0) ∧ c.content = content := by
  unfold ofKind? at h
  split at h
  case h_1 first second =>
      split at h
      case isTrue hset =>
          obtain ⟨rfl, hclear, rfl⟩ := hset
          cases h
          rw [if_neg hclear, header_eq]
          exact ⟨by dsimp only; decide, rfl⟩
      split at h
      case isTrue hread =>
          subst hread
          cases h
          rw [header_eq]
          exact ⟨by cases broadcast <;> dsimp only <;> decide, rfl⟩
      split at h
      case isTrue hforget =>
          obtain ⟨rfl, hset, rfl, rfl⟩ := hforget
          cases h
          rw [if_pos hset, header_eq]
          exact ⟨by dsimp only; decide, rfl⟩
      case isFalse => cases h
  case h_2 chip register v3 v2 v1 v0 =>
      split at h
      case isTrue hwrite =>
          subst hwrite
          cases h
          rw [header_eq, Command.content, Bytes.ofUInt32BE_toUInt32BE]
          exact ⟨by cases broadcast <;> dsimp only <;> decide, rfl⟩
      case isFalse => cases h
  case h_3 => cases h

theorem header_content_of_ofParts? {header : UInt8} {content : Bytes} {c : Command}
    (h : ofParts? header content = some c) : c.header = header ∧ c.content = content := by
  unfold ofParts? at h
  split at h
  case isTrue hjob =>
      cases h
      exact ⟨by rw [header_eq, hjob], rfl⟩
  case isFalse =>
      obtain ⟨hheader, hcontent⟩ := header_content_of_ofKind? h
      exact ⟨hheader.trans (kind_or_flag header), hcontent⟩

/-! ## Reading -/

theorem read?_frame_append {c : Command} (h : c.Fits) (rest : Bytes) :
    read? (c.frame ++ rest) = some (c, rest) := by
  have hlen := toNat_length_of_fits h
  have hsum := length_checksum c c.covered
  have hcut : c.length - 2 - c.checksumLength = c.content.length := by
    rw [length]
    omega
  rw [frame_append]
  simp only [read?, checksumLengthOf_header, hlen, hcut, List.take_left, List.drop_left,
    ofParts?_header_content, checksumOf_header, Option.map_some]
  rw [if_neg, if_pos]
  · rw [← hsum, List.drop_left]
  · rw [← hsum, List.take_left, covered]
  · simp only [List.length_append, length, hsum]
    omega

/-- Whatever is read was in front as a whole frame: its length byte, its content and its checksum
are those of the command. -/
theorem eq_frame_append_of_read? {bytes rest : Bytes} {c : Command}
    (h : read? bytes = some (c, rest)) : c.Fits ∧ bytes = c.frame ++ rest := by
  unfold read? at h
  split at h
  case h_2 => cases h
  case h_1 header size tail =>
    dsimp only at h
    split at h
    case isTrue => cases h
    case isFalse room =>
    split at h
    case isFalse => cases h
    case isTrue sum =>
      simp only [Option.map_eq_some_iff, Prod.mk.injEq] at h
      obtain ⟨found, parts, hfound, rfl⟩ := h
      rw [hfound] at parts
      obtain ⟨rfl, hcontent⟩ := header_content_of_ofParts? parts
      rw [checksumLengthOf_header] at room hcontent sum ⊢
      rw [checksumOf_header, ← hcontent] at sum
      have hlen : c.content.length = size.toNat - 2 - c.checksumLength := by
        rw [hcontent, List.length_take]
        omega
      have hsize : c.length = size.toNat := by
        rw [length]
        omega
      have hbyte : UInt8.ofNat c.length = size := by
        rw [hsize, UInt8.ofNat_toNat]
      refine ⟨fits_of_length_lt (hsize ▸ size.toNat_lt), ?_⟩
      rw [frame_append, covered, hbyte, ← sum, List.take_append_drop, hcontent,
        List.take_append_drop]

/-- Commands that fit have frames of their own. -/
theorem frame_eq_iff {c d : Command} (hc : c.Fits) (hd : d.Fits) : c.frame = d.frame ↔ c = d := by
  constructor
  · intro h
    have hread := read?_frame_append hc []
    rw [h, read?_frame_append hd] at hread
    cases hread
    rfl
  · rintro rfl
    rfl

end ChipChain.Command
