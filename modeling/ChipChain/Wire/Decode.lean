import ChipChain.Wire.Command

/-!
# Reading command frames

From bytes back to commands: the length byte says where a frame ends, the
checksum has to hold, and the header says how to read the content.
-/

namespace ChipChain.Command

/-- The command of a kind of header that is no job's, with its broadcast flag and its content. -/
def ofKind? (kind : UInt8) (broadcast : Bool) (content : Bytes) : Option Command :=
  match content with
  | [first, second] =>
    if kind = 0x40 ∧ ¬ broadcast ∧ second = 0 then some (.setAddress first)
    else if kind = 0x42 then some (.readRegister broadcast first second)
    else if kind = 0x43 ∧ broadcast ∧ first = 0 ∧ second = 0 then some .chainInactive
    else none
  | [chip, register, v3, v2, v1, v0] =>
    if kind = 0x41 then
      some (.writeRegister broadcast chip register (Bytes.toUInt32BE v3 v2 v1 v0))
    else none
  | _ => none

/-- The command that a header byte and a content stand for. -/
def ofParts? (header : UInt8) (content : Bytes) : Option Command :=
  if header = 0x21 then some (.job content)
  else ofKind? (header &&& 0xef) (header &&& 0x10 ≠ 0) content

def checksumLengthOf (header : UInt8) : Nat :=
  if header = 0x21 then 2 else 1

/-- The checksum bytes of what stands between preamble and checksum. -/
def checksumOf (header : UInt8) (covered : Bytes) : Bytes :=
  if header = 0x21 then Bytes.ofUInt16BE (crc16 covered) else [crc5 covered]

/-- Read the frame in front: its command, and the bytes after it. -/
def read? : Bytes → Option (Command × Bytes)
  | 0x55 :: 0xaa :: header :: length :: rest =>
    let tail := checksumLengthOf header
    if length.toNat < tail + 2 ∨ rest.length < length.toNat - 2 then none
    else
      let content := rest.take (length.toNat - 2 - tail)
      let rest := rest.drop (length.toNat - 2 - tail)
      if rest.take tail = checksumOf header (header :: length :: content) then
        (ofParts? header content).map fun command => (command, rest.drop tail)
      else none
  | _ => none

/-- Whatever is read, fewer bytes are left. -/
theorem length_lt_of_read? {bytes rest : Bytes} {command : Command}
    (h : read? bytes = some (command, rest)) : rest.length < bytes.length := by
  unfold read? at h
  split at h
  · dsimp only at h
    split at h
    · exact absurd h (by simp)
    · split at h
      · simp only [Option.map_eq_some_iff, Prod.mk.injEq] at h
        obtain ⟨_, _, _, rfl⟩ := h
        simp only [List.length_drop, List.length_cons]
        omega
      · exact absurd h (by simp)
  · exact absurd h (by simp)

/-- Read frames one after the other, up to the end of the bytes. -/
def readAll? (bytes : Bytes) : Option (List Command) :=
  if bytes = [] then some []
  else
    match _h : read? bytes with
    | none => none
    | some (command, rest) => (readAll? rest).map (command :: ·)
termination_by bytes.length
decreasing_by exact length_lt_of_read? _h

end ChipChain.Command
