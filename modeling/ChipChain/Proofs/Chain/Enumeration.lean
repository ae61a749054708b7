import ChipChain.Proofs.Chain.Emission
import ChipChain.Proofs.Wire.Damage

/-!
# Counting the chips that answer

A count reads replies as long as each fills the length of an identity, whatever it says, and
one more. Of those that fill it, the ones that identify a chip of the family are counted. The
main statement is `countChips_counts`.
-/

namespace ChipChain

namespace Reply

def fills (length : Nat) : Reply → Bool
  | .bytes data => length ≤ data.length
  | _ => false

/-- Cut to the length of an identity, the reply starts as all responses do, its checksum holds, and
it names the chip of the family. -/
def identifies (family : Family) : Reply → Bool
  | .bytes data =>
    match data.take family.identityLength with
    | 0xaa :: 0x55 :: high :: low :: rest =>
      crc5Holds (high :: low :: rest) && Bytes.toUInt16BE high low == family.chipId
    | _ => false
  | _ => false

end Reply

theorem Response.intact_iff {frame : Bytes} {length : Nat} :
    Intact frame length ↔
      frame.length = length ∧ ∃ rest, frame = preamble ++ rest ∧ crc5Holds rest = true := by
  constructor
  · intro h
    obtain rfl := h.length_eq
    obtain ⟨rest, hframe, hrest⟩ := check_eq_ok_iff.1 h
    exact ⟨rfl, rest, hframe, Checksum.crc5Holds_iff.2 hrest⟩
  · rintro ⟨rfl, rest, hframe, hrest⟩
    exact check_eq_ok_iff.2 ⟨rest, hframe, Checksum.crc5Holds_iff.1 hrest⟩

namespace Bus

theorem isIdentity_iff {family : Family} {frame : Bytes} :
    IsIdentity family frame ↔ frame.length = family.identityLength ∧
      ∃ high low rest, frame = 0xaa :: 0x55 :: high :: low :: rest ∧
        crc5Holds (high :: low :: rest) = true ∧ Bytes.toUInt16BE high low = family.chipId := by
  rw [IsIdentity, Response.intact_iff, and_assoc, and_congr_right_iff]
  intro _
  constructor
  · rintro ⟨⟨body, rfl, hcrc⟩, hid⟩
    match body, hid with
    | high :: low :: rest, hid => exact ⟨high, low, rest, rfl, hcrc, Option.some.inj hid⟩
  · rintro ⟨high, low, rest, rfl, hcrc, hid⟩
    exact ⟨⟨high :: low :: rest, rfl, hcrc⟩, congrArg some hid⟩

theorem identifies_eq {family : Family} {data : Bytes}
    (h : family.identityLength ≤ data.length) :
    Reply.identifies family (.bytes data) =
      decide (IsIdentity family (data.take family.identityLength)) := by
  have hlength : (data.take family.identityLength).length = family.identityLength := by
    rw [List.length_take, Nat.min_eq_left h]
  rw [Bool.eq_iff_iff, decide_eq_true_iff, isIdentity_iff, and_iff_right hlength, Reply.identifies]
  split
  case h_1 high low rest hframe => simp [hframe]
  case h_2 hother =>
    refine iff_of_false Bool.false_ne_true ?_
    rintro ⟨high, low, rest, hframe, -⟩
    exact hother high low rest hframe

theorem identities_eq (family : Family) (replies : List Reply) :
    identities family replies =
      (replies.takeWhile (Reply.fills family.identityLength)).countP
        (Reply.identifies family) := by
  unfold identities
  induction replies with
  | nil => rfl
  | cons reply rest ih =>
      cases reply with
      | bytes data =>
          by_cases h : family.identityLength ≤ data.length
          · simp [answers, Reply.fills, h, List.countP_cons, ih, identifies_eq]
          · simp [answers, Reply.fills, h]
      | _ => rfl

theorem left_collect {length : Nat} (hpos : 0 < length) (window : Nat) (replies : List Reply) :
    (Line.collect length window replies).2.2 =
      (replies.dropWhile (Reply.fills length)).tail := by
  induction replies with
  | nil => rfl
  | cons reply rest ih =>
      cases reply with
      | bytes data =>
          have hfull := full_take_iff hpos data
          rw [Line.collect]
          by_cases h : length ≤ data.length
          · rw [if_pos (hfull.2 h)]
            simp [Reply.fills, h, ih]
          · rw [if_neg (mt hfull.1 h)]
            simp [Reply.fills, h]
      | _ => rfl

/-- The count depends on no more than the replies up to the first that does not fill the length of
an identity: of those before it, it is the number that identify a chip of the family, as far as
it reaches. It takes these replies and that one from the link, sends nothing, and changes nothing
else but the time and what is reported, whatever number of chips is expected. -/
theorem countChips_counts (model : Model) (w : World) :
    ∃ clock, ∀ expected, ∃ journal,
      let fills := Reply.fills model.family.identityLength
      (countChips model.family expected).run w =
        (.ok (min ((w.line.replies.takeWhile fills).countP (Reply.identifies model.family)) 65535),
          { w with
            clock, journal
            line := { w.line with replies := (w.line.replies.dropWhile fills).tail } }) := by
  have hid : model.family.chipId ≠ 0 := by cases model <;> decide
  have hpos : 0 < model.family.identityLength := by cases model <;> decide
  let collected := Line.collect model.family.identityLength enumerationWindow w.line.replies
  refine ⟨w.clock + collected.2.1, fun expected => ?_⟩
  obtain ⟨journal, hrun⟩ := run_countChips hid hpos expected w
  rw [identities_eq, left_collect hpos] at hrun
  exact ⟨journal, hrun⟩

/-- An answer damaged in one bit between two good ones, and then one that is cut short. -/
example :
    let identity := [0xaa, 0x55, 0x13, 0x97, 0x18, 0x00, 0x00, 0x00, 0x06]
    let replies := [.bytes identity, .bytes (identity.set 4 0x58), .bytes identity,
      .bytes (identity.take 3), .bytes identity]
    ((countChips Model.bm1397.family 3).run
      { World.fresh .bm1397 with line := { replies } }).1 = .ok 2 := by
  decide +kernel

end Bus

end ChipChain
