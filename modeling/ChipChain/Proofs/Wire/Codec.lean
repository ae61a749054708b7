import ChipChain.Proofs.Wire.Frame

/-!
# Streams of frames

Commands written one after the other into one buffer. Those that do not fit are
turned away and leave no trace; the frames of the others follow what was in the
buffer, and one reader takes them apart again. The main statement is
`writeEach_roundTrip`.
-/

namespace ChipChain.Command

/-! ## Writing one command after the other -/

/-- Write commands in order, going on after one that does not fit; what each of them came to. -/
def writeEach (commands : List Command) : StateM Bytes (List (Except OversizedJob Unit)) :=
  commands.mapM fun c => c.write.run

def verdict (c : Command) : Except OversizedJob Unit :=
  if c.Fits then .ok () else .error ⟨c.content.length⟩

def accepted (commands : List Command) : List Command :=
  commands.filter fun c => c.Fits

/-- The bytes that a list of commands adds to a buffer. -/
def appended (buffer : Bytes) (commands : List Command) : Bytes :=
  ((writeEach commands).run buffer).2.drop buffer.length

theorem run_write_eq_verdict (c : Command) (buffer : Bytes) :
    c.write.run.run buffer = (c.verdict, if c.Fits then buffer ++ c.frame else buffer) := by
  by_cases h : c.Fits
  · rw [run_write_of_fits h, verdict, if_pos h, if_pos h]
  · rw [run_write_of_not_fits h, verdict, if_neg h, if_neg h]

theorem run_writeEach_cons (c : Command) (rest : List Command) (buffer : Bytes) :
    (writeEach (c :: rest)).run buffer =
      (((c.write.run.run buffer).1 :: ((writeEach rest).run (c.write.run.run buffer).2).1),
        ((writeEach rest).run (c.write.run.run buffer).2).2) := by
  rw [writeEach, List.mapM_cons]
  rfl

theorem run_writeEach (commands : List Command) (buffer : Bytes) :
    (writeEach commands).run buffer =
      (commands.map verdict, buffer ++ (accepted commands).flatMap frame) := by
  induction commands generalizing buffer with
  | nil =>
      rw [accepted, List.filter_nil, List.flatMap_nil, List.append_nil]
      rfl
  | cons c rest ih =>
      rw [run_writeEach_cons, run_write_eq_verdict, ih]
      by_cases h : c.Fits <;> simp [accepted, h]

theorem appended_eq (buffer : Bytes) (commands : List Command) :
    appended buffer commands = (accepted commands).flatMap frame := by
  rw [appended, run_writeEach, List.drop_left]

theorem fits_of_mem_accepted {commands : List Command} {c : Command} (h : c ∈ accepted commands) :
    c.Fits := by
  simpa using (List.mem_filter.1 h).2

/-! ## Reading one frame after the other -/

theorem readAll?_nil : readAll? [] = some [] := by
  rw [readAll?, if_pos rfl]

theorem readAll?_frame_append {c : Command} (h : c.Fits) (rest : Bytes) :
    readAll? (c.frame ++ rest) = (readAll? rest).map (c :: ·) := by
  have hne : c.frame ++ rest ≠ [] := by
    rw [frame_append]
    exact List.cons_ne_nil _ _
  rw [readAll?, if_neg hne]
  split
  case h_1 hnone =>
    rw [read?_frame_append h] at hnone
    cases hnone
  case h_2 found left hsome =>
    rw [read?_frame_append h] at hsome
    cases hsome
    rfl

theorem readAll?_flatMap_frame {commands : List Command} (h : ∀ c ∈ commands, c.Fits) :
    readAll? (commands.flatMap frame) = some commands := by
  induction commands with
  | nil => exact readAll?_nil
  | cons c rest ih =>
      rw [List.flatMap_cons, readAll?_frame_append (h c List.mem_cons_self),
        ih fun d hd => h d (List.mem_cons_of_mem c hd), Option.map_some]

theorem eq_flatMap_frame_of_readAll? {bytes : Bytes} {commands : List Command}
    (h : readAll? bytes = some commands) :
    (∀ c ∈ commands, c.Fits) ∧ bytes = commands.flatMap frame := by
  fun_induction readAll? bytes generalizing commands with
  | case1 =>
      cases h
      exact ⟨fun c hc => absurd hc List.not_mem_nil, rfl⟩
  | case2 => cases h
  | case3 bytes hne c rest hread ih =>
      obtain ⟨hfits, rfl⟩ := eq_frame_append_of_read? hread
      obtain ⟨others, hothers, rfl⟩ := Option.map_eq_some_iff.1 h
      obtain ⟨hall, rfl⟩ := ih hothers
      exact ⟨List.forall_mem_cons.2 ⟨hfits, hall⟩, rfl⟩

/-- The reader accepts exactly the streams of frames of commands that fit. -/
theorem readAll?_eq_some_iff {bytes : Bytes} {commands : List Command} :
    readAll? bytes = some commands ↔
      (∀ c ∈ commands, c.Fits) ∧ bytes = commands.flatMap frame := by
  constructor
  · exact eq_flatMap_frame_of_readAll?
  · rintro ⟨h, rfl⟩
    exact readAll?_flatMap_frame h

/-! ## The stream as a whole -/

/-- A frame as it stands on the wire: the preamble, then header, length byte and content, then the
checksum of these three; after the preamble there are as many bytes as the length byte says. -/
def Framed (c : Command) (bytes : Bytes) : Prop :=
  ∃ size : UInt8,
    bytes = [0x55, 0xaa] ++ (c.header :: size :: c.content) ++
        (match c with
          | .job _ => Bytes.ofUInt16BE (crc16 (c.header :: size :: c.content))
          | _ => [crc5 (c.header :: size :: c.content)]) ∧
      bytes.length = size.toNat + 2

theorem framed_of_fits {c : Command} (h : c.Fits) : Framed c c.frame := by
  refine ⟨UInt8.ofNat c.length, ?_, ?_⟩
  · cases c <;> rfl
  · rw [length_frame, toNat_length_of_fits h]

/-- Exactly the jobs whose payload is past the longest are turned away, and nothing of them is
written. The buffer ends up as it began, followed by the frames of the accepted commands; the
reader recovers these from what was appended, and accepts nothing but such streams, so no two
lists of accepted commands are written alike. -/
theorem writeEach_roundTrip (buffer : Bytes) (commands : List Command) :
    (∀ (c : Command) (before : Bytes),
      ((∃ e, (c.write.run.run before).1 = .error e) ↔
        ∃ payload, c = .job payload ∧ 251 < payload.length) ∧
      (∀ e, (c.write.run.run before).1 = .error e → (c.write.run.run before).2 = before)) ∧
    (writeEach commands).run buffer =
      (commands.map verdict, buffer ++ (accepted commands).flatMap frame) ∧
    (∀ c ∈ accepted commands, Framed c c.frame) ∧
    readAll? (appended buffer commands) = some (accepted commands) ∧
    (∀ bytes read, readAll? bytes = some read ↔
      (∀ c ∈ read, c.Fits) ∧ bytes = read.flatMap frame) ∧
    ∀ (other : Bytes) (others : List Command),
      appended other others = appended buffer commands → accepted others = accepted commands := by
  have hread : ∀ b cs, readAll? (appended b cs) = some (accepted cs) := by
    intro b cs
    rw [appended_eq]
    exact readAll?_flatMap_frame fun _ => fits_of_mem_accepted
  refine ⟨?_, run_writeEach commands buffer, ?_, hread buffer commands, ?_, ?_⟩
  · intro c before
    by_cases h : c.Fits
    · rw [run_write_of_fits h]
      exact ⟨⟨nofun, fun hjob => absurd h (not_fits_iff.2 hjob)⟩, nofun⟩
    · rw [run_write_of_not_fits h]
      exact ⟨⟨fun _ => not_fits_iff.1 h, fun _ => ⟨_, rfl⟩⟩, fun _ _ => rfl⟩
  · intro c hc
    exact framed_of_fits (fits_of_mem_accepted hc)
  · intro bytes read
    exact readAll?_eq_some_iff
  · intro other others heq
    have hsame := hread other others
    rw [heq, hread buffer commands] at hsame
    exact (Option.some.inj hsame).symm

end ChipChain.Command
