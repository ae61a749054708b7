import ChipChain.Proofs.Chain.Sending

/-!
# What a routine sends

A triple for routines on a link whose sendings succeed: from a stand, the
commands that go out, the outcome, and the stand that is left. One rule for each
way of putting routines together, then the routines of the bus, up to the count
of the chips that answer, which takes replies from the link and otherwise only reports.
-/

namespace ChipChain

/-- The part of a world that routines on a faultless link go by. -/
structure Stand where
  ramp : Ramp
  replies : List Reply

def World.stand (w : World) : Stand :=
  ⟨w.ramp, w.line.replies⟩

namespace Routine

variable {ε δ α β : Type}

theorem run_attempt (p : Routine ε α) (w : World) :
    (p.attempt : Routine δ (Except ε α)).run w = (.ok (p.run w).1, (p.run w).2) := by
  induction p generalizing w with
  | done value => rfl
  | fail error => rfl
  | act action next ih => exact ih _ _

/-! ## Reports -/

/-- The routine does nothing but report, and comes to this value. -/
def Reports (p : Routine ε α) (value : α) : Prop :=
  ∀ w : World, ∃ journal, p.run w = (.ok value, { w with journal })

namespace Reports

theorem done (value : α) : (done value : Routine ε α).Reports value :=
  fun w => ⟨w.journal, rfl⟩

theorem note (entry : Entry) : (Routine.note entry : Routine ε Unit).Reports () :=
  fun _ => ⟨_, rfl⟩

theorem bind {p : Routine ε α} {f : α → Routine ε β} {x : α} {y : β} (hp : p.Reports x)
    (hf : (f x).Reports y) : (p >>= f).Reports y := by
  intro w
  obtain ⟨journal, hrun⟩ := hp w
  obtain ⟨journal', hrun'⟩ := hf { w with journal }
  rw [run_bind, hrun]
  exact ⟨journal', hrun'⟩

theorem forEach {f : α → Routine ε Unit} (h : ∀ x, (f x).Reports ()) (xs : List α) :
    (Routine.forEach xs f).Reports () := by
  induction xs with
  | nil => exact done ()
  | cons x rest ih => exact bind (h x) ih

end Reports

/-! ## Commands -/

/-- Wherever the link does not fail and the stand is `s`, the routine comes to this outcome and the
stand `s'`, and has sent exactly these commands. -/
def Emits (p : Routine ε α) (s : Stand) (sent : List Command) (outcome : Except ε α)
    (s' : Stand) : Prop :=
  ∀ w : World, w.line.sendFault = none → w.stand = s →
    ∃ after, p.run w = (outcome, after) ∧ after.line.sendFault = none ∧ after.stand = s' ∧
      after.frames = w.frames ++ sent.map Command.frame

namespace Emits

variable {s s' s'' : Stand} {sent sent' : List Command}

theorem done (value : α) (s : Stand) : (done value : Routine ε α).Emits s [] (.ok value) s :=
  fun w hfault hstand => ⟨w, rfl, hfault, hstand, (List.append_nil _).symm⟩

theorem fail (error : ε) (s : Stand) : (fail error : Routine ε α).Emits s [] (.error error) s :=
  fun w hfault hstand => ⟨w, rfl, hfault, hstand, (List.append_nil _).symm⟩

theorem ofExcept (outcome : Except ε α) (s : Stand) :
    (Routine.ofExcept outcome).Emits s [] outcome s := by
  cases outcome with
  | ok value => exact done value s
  | error error => exact fail error s

theorem note (entry : Entry) (s : Stand) :
    (Routine.note entry : Routine ε Unit).Emits s [] (.ok ()) s :=
  fun _ hfault hstand => ⟨_, rfl, hfault, hstand, (List.append_nil _).symm⟩

theorem pause (ms : Nat) (s : Stand) :
    (Routine.pause ms : Routine ε Unit).Emits s [] (.ok ()) s :=
  fun _ hfault hstand => ⟨_, rfl, hfault, hstand, (List.append_nil _).symm⟩

theorem readRamp (s : Stand) : (Routine.readRamp : Routine ε Ramp).Emits s [] (.ok s.ramp) s :=
  fun w hfault hstand =>
    ⟨w, hstand ▸ rfl, hfault, hstand, (List.append_nil _).symm⟩

theorem storeRamp (ramp : Ramp) (s : Stand) :
    (Routine.storeRamp ramp : Routine ε Unit).Emits s [] (.ok ()) { s with ramp } :=
  fun _ hfault hstand => ⟨_, rfl, hfault, hstand ▸ rfl, (List.append_nil _).symm⟩

/-! ## Putting routines together -/

theorem bind {p : Routine ε α} {f : α → Routine ε β} {value : α} {outcome : Except ε β}
    (hp : p.Emits s sent (.ok value) s') (hf : (f value).Emits s' sent' outcome s'') :
    (p >>= f).Emits s (sent ++ sent') outcome s'' := by
  intro w hfault hstand
  obtain ⟨between, hrun, hfault', hstand', hframes⟩ := hp w hfault hstand
  obtain ⟨after, hrun', hfault'', hstand'', hframes'⟩ := hf between hfault' hstand'
  refine ⟨after, ?_, hfault'', hstand'', ?_⟩
  · rw [run_bind, hrun]
    exact hrun'
  · rw [hframes', hframes, List.map_append, List.append_assoc]

theorem cons_bind {p : Routine ε α} {f : α → Routine ε β} {value : α} {outcome : Except ε β}
    {c : Command} (hp : p.Emits s [c] (.ok value) s') (hf : (f value).Emits s' sent outcome s'') :
    (p >>= f).Emits s (c :: sent) outcome s'' :=
  bind hp hf

theorem bind_error {p : Routine ε α} {error : ε} (hp : p.Emits s sent (.error error) s')
    (f : α → Routine ε β) : (p >>= f).Emits s sent (.error error) s' := by
  intro w hfault hstand
  obtain ⟨after, hrun, hrest⟩ := hp w hfault hstand
  exact ⟨after, by rw [run_bind, hrun], hrest⟩

theorem silent_bind {p : Routine ε α} {f : α → Routine ε β} {value : α} {outcome : Except ε β}
    (hp : p.Emits s [] (.ok value) s') (hf : (f value).Emits s' sent outcome s'') :
    (p >>= f).Emits s sent outcome s'' :=
  bind hp hf

theorem bind_silent {p : Routine ε α} {f : α → Routine ε β} {value : α} {outcome : Except ε β}
    (hp : p.Emits s sent (.ok value) s') (hf : (f value).Emits s' [] outcome s'') :
    (p >>= f).Emits s sent outcome s'' := by
  have h := bind hp hf
  rwa [List.append_nil] at h

theorem attempt {p : Routine ε α} {outcome : Except ε α} (h : p.Emits s sent outcome s') :
    (p.attempt : Routine δ (Except ε α)).Emits s sent (.ok outcome) s' := by
  intro w hfault hstand
  obtain ⟨after, hrun, hrest⟩ := h w hfault hstand
  exact ⟨after, by rw [run_attempt, hrun], hrest⟩

theorem forEach {f : α → Routine ε Unit} {words : α → List Command}
    (h : ∀ x, (f x).Emits s (words x) (.ok ()) s) (xs : List α) :
    (Routine.forEach xs f).Emits s (xs.flatMap words) (.ok ()) s := by
  induction xs with
  | nil => exact done () s
  | cons x rest ih => exact bind (h x) ih

theorem forEach_map {f : α → Routine ε Unit} {word : α → Command}
    (h : ∀ x, (f x).Emits s [word x] (.ok ()) s) (xs : List α) :
    (Routine.forEach xs f).Emits s (xs.map word) (.ok ()) s := by
  rw [List.map_eq_flatMap]
  exact forEach h xs

theorem times {p : Routine ε Unit} (h : p.Emits s sent (.ok ()) s) (count : Nat) :
    (Routine.times count p).Emits s (List.replicate count sent).flatten (.ok ()) s := by
  induction count with
  | zero => exact done () s
  | succ count ih => exact bind h ih

end Emits

end Routine

open Routine

/-! ## The bus -/

namespace Bus

variable {s : Stand}

theorem send_emits {c : Command} (h : c.Fits) : (send c).Emits s [c] (.ok ()) s := by
  intro w hfault hstand
  obtain ⟨journal, hrun⟩ := run_send c w
  have hsent := frames_send c w
  have htransmit : w.line.transmit w.clock c.frame =
      (.ok (), { w.line with sent := w.line.sent.push (w.clock, c.frame) }) := by
    simp [Line.transmit, hfault]
  rw [Command.oversized?_of_fits h, htransmit] at hrun
  rw [hrun] at hsent
  exact ⟨_, hrun, hfault, hstand, hsent⟩

theorem writeAll_emits (register : UInt8) (value : UInt32) :
    (writeAll register value).Emits s [.writeAll register value] (.ok ()) s :=
  send_emits trivial

theorem writeChip_emits (chip register : UInt8) (value : UInt32) :
    (writeChip chip register value).Emits s [.writeChip chip register value] (.ok ()) s :=
  send_emits trivial

theorem writeTicketMask_emits (difficulty : UInt32) :
    (writeTicketMask difficulty).Emits s
      [.writeAll Register.ticketMask (ticketMaskWord difficulty)] (.ok ()) s :=
  Emits.silent_bind (Emits.note _ s) (writeAll_emits _ _)

theorem assignAddresses_emits (plan : AddressPlan) :
    (assignAddresses plan).Emits s (.chainInactive :: plan.addresses.map .setAddress)
      (.ok ()) s := by
  have haddress (address : UInt8) : (send (.setAddress address)).Emits s [.setAddress address]
      (.ok ()) s := send_emits trivial
  refine Emits.bind (send_emits (c := .chainInactive) trivial) ?_
  exact Emits.bind_silent (Emits.forEach_map haddress plan.addresses) (Emits.note _ s)

/-! ## Counting chips -/

/-- The full answers that come before the first reading that is not one. -/
def answers (length : Nat) : List Reply → List Bytes
  | .bytes data :: rest =>
    if length ≤ data.length then data.take length :: answers length rest else []
  | _ => []

/-- An answer that counts: it is intact and comes from a chip of the family. -/
def IsIdentity (family : Family) (frame : Bytes) : Prop :=
  Response.Intact frame family.identityLength ∧ Response.chipId? frame = some family.chipId

instance (family : Family) : DecidablePred (IsIdentity family) :=
  fun _ => inferInstanceAs (Decidable (_ ∧ _))

def identities (family : Family) (replies : List Reply) : Nat :=
  (answers family.identityLength replies).countP (IsIdentity family ·)

theorem full_take_iff {length : Nat} (hpos : 0 < length) (data : Bytes) :
    (data.take length).length = length ∧ data.take length ≠ [] ↔ length ≤ data.length := by
  rw [List.length_take, ← List.length_pos_iff, List.length_take]
  omega

theorem full_collect {length : Nat} (hpos : 0 < length) (window : Nat) (replies : List Reply) :
    (Line.collect length window replies).1.full = answers length replies := by
  induction replies with
  | nil => rfl
  | cons reply rest ih =>
      cases reply with
      | bytes data =>
          have hfull := full_take_iff hpos data
          rw [Line.collect, answers, ← ih]
          by_cases h : length ≤ data.length
          · rw [if_pos h, if_pos (hfull.2 h)]
          · rw [if_neg h, if_neg (mt hfull.1 h)]
      | _ => rfl

theorem judgeIdentity_counts {family : Family} (hid : family.chipId ≠ 0) (count : Nat)
    (response : Bytes) :
    (judgeIdentity family count response).1 = decide (IsIdentity family response) := by
  rw [Bool.eq_iff_iff, decide_eq_true_iff]
  unfold judgeIdentity IsIdentity Response.Intact
  cases hcheck : Response.check response family.identityLength with
  | error fault => simp
  | ok _ =>
      cases hread : Response.chipId? response with
      | none => simp [hid.symm]
      | some identity => by_cases h : identity = family.chipId <;> simp [h]

theorem countIdentities_reports {family : Family} (hid : family.chipId ≠ 0) {count : Nat}
    (hcount : count ≤ maxCount) (responses : List Bytes) :
    (countIdentities family count responses).Reports
      (min (count + responses.countP (IsIdentity family ·)) maxCount) := by
  induction responses generalizing count with
  | nil =>
      rw [List.countP_nil, Nat.add_zero, Nat.min_eq_left hcount]
      exact Reports.done count
  | cons response rest ih =>
      have hcounts := judgeIdentity_counts hid count response
      let next := if (judgeIdentity family count response).1 then min (count + 1) maxCount else count
      have hnext : next ≤ maxCount := by
        dsimp only [next]
        split <;> omega
      have hsum : min (next + rest.countP (IsIdentity family ·)) maxCount =
          min (count + (response :: rest).countP (IsIdentity family ·)) maxCount := by
        dsimp only [next]
        rw [hcounts, List.countP_cons]
        split <;> omega
      have hrest := ih hnext
      rw [hsum] at hrest
      exact Reports.bind (Reports.note _) hrest

theorem run_countChips {family : Family} (hid : family.chipId ≠ 0)
    (hpos : 0 < family.identityLength) (expected : Nat) (w : World) :
    let collected := Line.collect family.identityLength enumerationWindow w.line.replies
    ∃ journal, (countChips family expected).run w =
      (.ok (min (identities family w.line.replies) maxCount),
        { w.after collected.2.1 with
          line := { w.line with replies := collected.2.2 }, journal }) := by
  intro collected
  have hcount := countIdentities_reports hid (Nat.zero_le maxCount) collected.1.full
  have hvalue : min (0 + collected.1.full.countP (IsIdentity family ·)) maxCount =
      min (identities family w.line.replies) maxCount := by
    rw [Nat.zero_add, full_collect hpos, identities]
  rw [hvalue] at hcount
  rw [countChips, run_collect_bind]
  refine Reports.bind hcount ?_ _
  refine Reports.bind (Reports.forEach (fun entry => Reports.note entry) _) ?_
  dsimp only
  split
  · exact Reports.bind (Reports.note _) (Reports.bind (Reports.note _) (Reports.done _))
  · exact Reports.bind (Reports.note _) (Reports.done _)

/-- The count is right as long as it stays within its type. -/
theorem countChips_emits {family : Family} (hid : family.chipId ≠ 0)
    (hpos : 0 < family.identityLength) (expected : Nat) :
    ∃ rest, (countChips family expected).Emits s []
      (.ok (min (identities family s.replies) maxCount)) { s with replies := rest } := by
  refine ⟨(Line.collect family.identityLength enumerationWindow s.replies).2.2, ?_⟩
  rintro w hfault rfl
  obtain ⟨journal, hrun⟩ := run_countChips hid hpos expected w
  exact ⟨_, hrun, hfault, rfl, (List.append_nil _).symm⟩

end Bus

end ChipChain
