import ChipChain.Proofs.Chain.Sending
import ChipChain.Proofs.Routine.Protocol

/-!
# Halting at a failed sending

Every call of a driver lets the first failed sending end it: nothing more is sent, and
the host is told of that failure. So a link that fails at one sending shows what the
same link shows without the failure, cut off there. The main statement is
`halts_at_failure`.
-/

namespace ChipChain

open Routine Driver

/-- Once a sending has failed, nothing may be sent. The state is the failure. -/
def halting : Protocol (Option LinkError) where
  may
    | some _, .transmit _ => False
    | _, _ => True
  next
    | none, .transmit _, .error e => some e
    | failed, _, _ => failed

theorem halting_next {action : Action} (h : ∀ frame, action ≠ .transmit frame)
    (answer : action.Answer) : halting.next none action answer = none := by
  cases action with
  | transmit frame => exact absurd rfl (h frame)
  | _ => rfl

/-- The world, but for the sending that its link will fail. -/
def World.withFault (w : World) (sendFault : Option (Nat × LinkError)) : World :=
  { w with line := { w.line with sendFault } }

theorem World.perform_withFault {action : Action} (h : ∀ frame, action ≠ .transmit frame)
    (w : World) (fault : Option (Nat × LinkError)) :
    (w.withFault fault).perform action =
      ((w.perform action).1, (w.perform action).2.1, (w.perform action).2.2.withFault fault) := by
  rcases w with ⟨clock, line, ledger, ramp, journal, settings, regulator, volts, consumer, found⟩
  cases action with
  | transmit frame => exact absurd rfl (h frame)
  | flush =>
      rcases line with ⟨sent, replies, sendFault, flushFault, baudFault⟩
      cases flushFault <;> rfl
  | setBaud baud =>
      rcases line with ⟨sent, replies, sendFault, flushFault, baudFault⟩
      cases baudFault <;> rfl
  | regulate volts => cases regulator <;> rfl
  | deliver found => cases consumer <;> rfl
  | _ => rfl

namespace Routine

variable {ε α β : Type}

/-! ## Runs that halt -/

theorem Obeys.frames_run_of_failed {ends : Except ε α → Option LinkError → Prop} {e : LinkError}
    {p : Routine ε α} (h : p.Obeys halting ends (some e)) (w : World) :
    (p.run w).2.frames = w.frames ∧ ends (p.run w).1 (some e) := by
  induction p generalizing w with
  | done value => exact ⟨rfl, h⟩
  | fail error => exact ⟨rfl, h⟩
  | act action next ih =>
      have hquiet : ∀ frame, action ≠ .transmit frame := fun frame heq => by
        subst heq
        exact h.1
      obtain ⟨hframes, hends⟩ := ih (w.perform action).1 (h.2 _)
        ((w.perform action).2.2.after (w.perform action).2.1)
      exact ⟨hframes.trans (World.frames_perform hquiet w), hends⟩

/-- What becomes of a run when a sending fails: if the run without the failure gets to that sending,
it is cut off there, and otherwise nothing becomes of it. -/
theorem Obeys.run_withFault {ends : Except ε α → Option LinkError → Prop} {p : Routine ε α}
    (h : p.Obeys halting ends none) (w : World) (n : Nat) (e : LinkError) :
    let unharmed := p.run (w.withFault none)
    let faulty := p.run (w.withFault (some (n, e)))
    ∃ sent, unharmed.2.frames = w.frames ++ sent ∧ faulty.2.frames = w.frames ++ sent.take n ∧
      (n < sent.length → ends faulty.1 (some e)) ∧
      (sent.length ≤ n →
        faulty = (unharmed.1, unharmed.2.withFault (some (n - sent.length, e)))) := by
  -- Both runs take the same steps until the failing one meets its failure.
  induction p generalizing w n with
  | done value =>
      have hnothing : w.frames = w.frames ++ [].take n := by simp
      exact ⟨[], (List.append_nil _).symm, hnothing, nofun, fun _ => rfl⟩
  | fail error =>
      have hnothing : w.frames = w.frames ++ [].take n := by simp
      exact ⟨[], (List.append_nil _).symm, hnothing, nofun, fun _ => rfl⟩
  | act action next ih =>
      by_cases htransmit : ∃ frame, action = .transmit frame
      case neg =>
        have hquiet : ∀ frame, action ≠ .transmit frame := fun frame heq => htransmit ⟨frame, heq⟩
        let after := (w.perform action).2.2.after (w.perform action).2.1
        have hframes : after.frames = w.frames := World.frames_perform hquiet w
        have hrun (fault : Option (Nat × LinkError)) : (act action next).run (w.withFault fault) =
            (next (w.perform action).1).run (after.withFault fault) := by
          rw [run, World.perform_withFault hquiet]
          rfl
        have hrest := h.2 (w.perform action).1
        rw [halting_next hquiet] at hrest
        rw [hrun, hrun, ← hframes]
        exact ih _ hrest after n
      case pos =>
        obtain ⟨frame, rfl⟩ := htransmit
        let after : World := { w with line.sent := w.line.sent.push (w.clock, frame) }
        have hframes : after.frames = w.frames ++ [frame] := by
          simp [after, World.frames, Line.frames]
        cases n with
        | zero =>
            obtain ⟨sent, hunharmed, -⟩ := ih (.ok ()) (h.2 (.ok ())) after 0
            obtain ⟨hfaulty, hends⟩ := (h.2 (.error e)).frames_run_of_failed (w.withFault none)
            rw [hframes, List.append_assoc] at hunharmed
            exact ⟨frame :: sent, hunharmed, hfaulty.trans (List.append_nil _).symm, fun _ => hends,
              fun hle => absurd hle (Nat.not_succ_le_zero _)⟩
        | succ n =>
            obtain ⟨sent, hunharmed, hfaulty, hcut, hsame⟩ := ih (.ok ()) (h.2 (.ok ())) after n
            rw [hframes, List.append_assoc] at hunharmed hfaulty
            refine ⟨frame :: sent, hunharmed, hfaulty, fun hlt => hcut (Nat.lt_of_succ_lt_succ hlt),
              fun hle => ?_⟩
            rw [List.length_cons, Nat.add_sub_add_right]
            exact hsame (Nat.le_of_succ_le_succ hle)

/-! ## Routines that stop -/

/-- If a sending failed, the routine has failed for that reason. -/
def StoppedBy (outcome : Except ChainError α) : Option LinkError → Prop
  | none => True
  | some e => outcome = .error (.link e)

/-- The first failed sending ends the routine. -/
abbrev Stops (p : Routine ChainError α) : Prop :=
  p.Obeys halting StoppedBy none

theorem Within.halts {p : Routine ε α} {ends : Except ε α → Option LinkError → Prop}
    (h : p.Within fun action => ∀ frame, action ≠ .transmit frame)
    (hends : ∀ outcome, ends outcome none) : p.Obeys halting ends none := by
  induction p with
  | done value => exact hends _
  | fail error => exact hends _
  | act action next ih =>
      refine ⟨trivial, fun answer => ?_⟩
      rw [halting_next h.1]
      exact ih answer (h.2 answer)

namespace Stops

theorem bind {p : Routine ChainError α} {f : α → Routine ChainError β} (hp : p.Stops)
    (hf : ∀ value, (f value).Stops) : (p >>= f).Stops := by
  refine Obeys.bind hp (fun value failed h => ?_) (fun error failed h => ?_)
  · cases failed with
    | none => exact hf value
    | some e => cases h
  · cases failed with
    | none => trivial
    | some e =>
        cases h
        rfl

theorem times {p : Routine ChainError Unit} (h : p.Stops) (count : Nat) :
    (Routine.times count p).Stops := by
  induction count with
  | zero => trivial
  | succ count ih => exact bind h fun _ => ih

end Stops

end Routine

/-! ## The parts of upkeep -/

theorem Bus.send_stops (c : Command) : (send c).Stops := by
  unfold send
  rw [Command.encode_nil]
  cases c.oversized? with
  | some e => trivial
  | none =>
      refine Obeys.perform_bind trivial fun _ => Obeys.perform_bind trivial fun answer => ?_
      cases answer with
      | ok _ => trivial
      | error e => rfl

namespace Driver

variable {apply : Frequency → Routine ChainError Unit}

def AttemptStoppedBy : Except ChainError (Except ChainError Unit) → Option LinkError → Prop
  | .ok outcome, failed => StoppedBy outcome failed
  | .error _, _ => False

def MoveStoppedBy : Except ChainError (Ramp × Except ChainError Unit) → Option LinkError → Prop
  | .ok (_, outcome), failed => StoppedBy outcome failed
  | .error _, _ => False

theorem follow_halts (h : ∀ f, (apply f).Stops) (ramp : Ramp) (stops : List Frequency) :
    (Ramp.follow (surroundings apply) ramp stops).Obeys halting MoveStoppedBy none := by
  induction stops generalizing ramp with
  | nil => trivial
  | cons stop rest ih =>
      have hattempt : ((apply stop).attempt : Routine ChainError _).Obeys halting
        AttemptStoppedBy none := Obeys.attempt (h stop)
      refine Obeys.bind hattempt (fun answer failed hstopped => ?_) fun _ _ => False.elim
      cases answer with
      | error e => exact hstopped
      | ok _ =>
          cases failed with
          | some e => cases hstopped
          | none =>
              refine Obeys.perform_bind trivial fun _ => ?_
              split
              · trivial
              · exact Obeys.perform_bind trivial fun _ => ih _

theorem transition_halts (h : ∀ f, (apply f).Stops) (ramp : Ramp) (target : Frequency) :
    (Ramp.transition (surroundings apply) ramp target).Obeys halting MoveStoppedBy none := by
  unfold Ramp.transition
  dsimp only
  split
  · exact Obeys.perform_bind trivial fun _ => trivial
  · refine Obeys.perform_bind trivial fun _ => ?_
    refine Obeys.bind (follow_halts h ramp _) (fun result failed hstopped => ?_) fun _ _ =>
      False.elim
    obtain ⟨moved, outcome⟩ := result
    cases outcome with
    | error e => exact hstopped
    | ok _ =>
        cases failed with
        | some e => cases hstopped
        | none => exact Obeys.perform_bind trivial fun _ => trivial

theorem moveClock_stops (h : ∀ f, (apply f).Stops) (target : Frequency) :
    (moveClock apply target).Stops := by
  refine Obeys.perform_bind trivial fun ramp => ?_
  refine Obeys.bind (transition_halts h ramp target) (fun result failed hstopped => ?_) fun _ _ =>
    False.elim
  obtain ⟨moved, outcome⟩ := result
  cases failed with
  | some e =>
      cases hstopped
      exact Obeys.perform_bind trivial fun _ => rfl
  | none =>
      refine Obeys.perform_bind trivial fun _ => ?_
      cases outcome <;> trivial

end Driver

/-! ## Setting the clock -/

theorem Rolling.setClock_stops (target : Frequency) : (setClock target).Stops := by
  unfold setClock
  split
  · trivial
  · exact Stops.bind (Bus.send_stops _) fun _ => Obeys.perform_bind trivial fun _ => trivial

theorem Midstate.setClock_stops (target : Frequency) : (setClock target).Stops := by
  unfold setClock
  split
  · trivial
  · have hwrite (register : UInt8) (value : UInt32) : (do
        pause clockRest
        Bus.writeAll register value : Routine ChainError Unit).Stops :=
      Obeys.perform_bind trivial fun _ => Bus.send_stops _
    exact Stops.bind (Stops.times (hwrite _ _) _) fun _ =>
      Stops.bind (Stops.times (hwrite _ _) _) fun _ =>
        Obeys.perform_bind trivial fun _ => Obeys.perform_bind trivial fun _ => trivial

namespace Model

theorem setClock_stops (model : Model) (target : Frequency) : (model.setClock target).Stops := by
  cases model with
  | bm1397 => exact Midstate.setClock_stops target
  | _ => exact Rolling.setClock_stops target

/-! ## Orders -/

theorem upkeep_stops {α : Type} (model : Model) {p : Routine ChainError α}
    (h : p.Upkeep model.setClock) : p.Stops := by
  induction h with
  | part hpart =>
      cases hpart with
      | perform action hidle => exact Within.halts (Within.perform hidle.quiet) fun _ => trivial
      | send c hsetup => exact Bus.send_stops c
      | moveClock target => exact Driver.moveClock_stops model.setClock_stops target
  | done value => trivial
  | fail error => trivial
  | bind _ _ ihp ihf => exact Stops.bind ihp ihf

theorem sendWork_stops (model : Model) (job : Job) : (model.driver.sendWork job).Stops := by
  obtain ⟨source, hsendWork⟩ := model.sendWork_eq
  rw [hsendWork]
  refine Obeys.perform_bind trivial fun id => Obeys.perform_bind trivial fun _ => ?_
  exact Obeys.perform_bind trivial fun _ => Stops.bind (Bus.send_stops _) fun _ => trivial

/-- An order on a link that fails at its sending number `n` sends what the same order, given in the
same world, sends on a link that does not fail, cut off before that sending. If it comes to that
sending, the host is told of that failure; otherwise there is no difference in the answer, nor in
the world but for the failure that is still to come. -/
theorem halts_at_failure (model : Model) {incident : Incident} (h : incident.isOrder) (w : World)
    (n : Nat) (e : LinkError) :
    let unharmed := model.driver.serve (w.withFault none) incident
    let faulty := model.driver.serve (w.withFault (some (n, e))) incident
    ∃ sent, unharmed.2.frames = w.frames ++ sent ∧ faulty.2.frames = w.frames ++ sent.take n ∧
      (n < sent.length → faulty.1.error? = some (.link e)) ∧
      (sent.length ≤ n →
        faulty = (unharmed.1, unharmed.2.withFault (some (n - sent.length, e)))) := by
  obtain ⟨α, p, tell, hp, hruns⟩ := runs_order model.upkeep_stops model.sendWork_stops h
  obtain ⟨sent, hunharmed, hfaulty, hcut, hsame⟩ := hp.run_withFault w n e
  rw [hruns.serve, hruns.serve]
  refine ⟨sent, hunharmed, hfaulty, fun hlt => ?_, fun hle => ?_⟩
  · have houtcome : (p.run (w.withFault (some (n, e)))).1 = .error (.link e) := hcut hlt
    dsimp only
    rw [houtcome, hruns.error]
  · dsimp only
    rw [hsame hle]

def answered : World :=
  { World.fresh .bm1370 with
    line.replies := [.bytes [0xaa, 0x55, 0x13, 0x70, 0, 0, 0, 0, 0, 0, 0x10]] }

/-- What a bring-up of three chips sends, as far as the second address. -/
def untilSecondAddress : List Command :=
  [.writeAll Register.versionMask 0x9000ffff, .writeAll Register.versionMask 0x9000ffff,
    .writeAll Register.versionMask 0x9000ffff, .readAll Register.chipAddress,
    .writeAll Register.initControl 0x00070000, .writeAll Register.miscControl 0xf000c100,
    .chainInactive, .setAddress 0, .setAddress 85]

/-- Of the 34 frames of a bring-up, the link fails at the one that gives the third chip its
address. -/
theorem halts_at_failure_of_init :
    (Incident.init Ramp.bootFrequency 3 256).isOrder ∧
      let unharmed := bm1370.driver.serve (answered.withFault none)
        (.init Ramp.bootFrequency 3 256)
      let faulty := bm1370.driver.serve (answered.withFault (some (9, .disconnected)))
        (.init Ramp.bootFrequency 3 256)
      unharmed.1.error? = none ∧ unharmed.2.frames.length = 34 ∧
        faulty.1.error? = some (.link .disconnected) ∧
        faulty.2.frames = untilSecondAddress.map Command.frame := by
  have horder : (Incident.init Ramp.bootFrequency 3 256).isOrder := rfl
  refine ⟨horder, ?_⟩
  intro unharmed faulty
  have hwell : unharmed.1.error? = none := by decide +kernel
  have hlength : unharmed.2.frames.length = 34 := by decide +kernel
  have hfirst : unharmed.2.frames.take 9 = untilSecondAddress.map Command.frame := by decide +kernel
  obtain ⟨sent, hsent, hkept, hcut, -⟩ :=
    bm1370.halts_at_failure horder answered 9 .disconnected
  have hall : unharmed.2.frames = sent := hsent
  rw [hall] at hfirst
  have hlong : 9 < sent.length := by
    rw [← hall, hlength]
    decide
  exact ⟨hwell, hlength, hcut hlong, hkept.trans hfirst⟩

end Model

end ChipChain
