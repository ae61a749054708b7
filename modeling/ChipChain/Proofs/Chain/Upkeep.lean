import ChipChain.Proofs.Chain.Parts
import ChipChain.Proofs.Wire.Frame

/-!
# Routines beside the work

Bringing a chain up and setting its registers draws no identifiers, installs no
jobs, screens no nonces, sends no jobs and delivers no results. However the link
behaves, these routines leave the ledger of work as it was.
-/

namespace ChipChain

def Command.isJob : Command → Bool
  | .job _ => true
  | _ => false

theorem Command.isJob_of_frame_eq {c : Command} {payload : Bytes}
    (h : (Command.job payload).frame = c.frame) : c.isJob = true := by
  have hheader : (Command.job payload).header = c.header := by
    have hbytes : (Command.job payload).frame ++ [] = c.frame ++ [] := by rw [h]
    simp only [frame_append, List.cons.injEq] at hbytes
    exact hbytes.2.2.1
  rw [header_eq, header_eq c] at hheader
  cases c with
  | job _ => rfl
  | writeRegister broadcast => cases broadcast <;> cases hheader
  | readRegister broadcast => cases broadcast <;> cases hheader
  | _ => cases hheader

def Action.KeepsLedger : Action → Prop
  | drawId => False
  | install _ _ => False
  | screen _ => False
  | clearJobs => False
  | _ => True

/-- Neither does the action touch the ledger, nor does it send a job or deliver a result. -/
def Action.Aside : Action → Prop
  | transmit frame => ∃ c : Command, c.isJob = false ∧ frame = c.frame
  | drawId => False
  | install _ _ => False
  | screen _ => False
  | clearJobs => False
  | deliver _ => False
  | _ => True

theorem Action.Aside.keepsLedger {action : Action} (h : action.Aside) : action.KeepsLedger := by
  cases action <;> trivial

theorem World.perform_ledger {action : Action} (h : action.KeepsLedger) (w : World) :
    (w.perform action).2.2.ledger = w.ledger := by
  cases action with
  | drawId => exact h.elim
  | install _ _ => exact h.elim
  | screen _ => exact h.elim
  | clearJobs => exact h.elim
  | regulate volts =>
      obtain ⟨_, hperform⟩ := w.perform_regulate volts
      rw [hperform]
  | deliver found =>
      obtain ⟨_, hperform⟩ := w.perform_deliver found
      rw [hperform]
  | _ => rfl

namespace Routine

variable {ε α : Type}

/-- No action of the routine touches the ledger. -/
abbrev KeepsLedger (p : Routine ε α) : Prop :=
  p.Within Action.KeepsLedger

theorem KeepsLedger.run_ledger {p : Routine ε α} (h : p.KeepsLedger) (w : World) :
    (p.run w).2.ledger = w.ledger :=
  Within.view_run World.ledger h (fun _ hkeeps w => World.perform_ledger hkeeps w)
    (fun _ _ => rfl) w

abbrev Aside (p : Routine ε α) : Prop :=
  p.Within Action.Aside

theorem Aside.run_ledger {p : Routine ε α} (h : p.Aside) (w : World) :
    (p.run w).2.ledger = w.ledger :=
  KeepsLedger.run_ledger (h.mono fun _ => Action.Aside.keepsLedger) w

end Routine

open Routine

/-! ## The bus -/

namespace Bus

theorem send_within {allowed : Action → Prop} (command : Command)
    (hnote : ∀ entry, allowed (.note entry)) (hframe : allowed (.transmit command.frame)) :
    (send command).Within allowed := by
  unfold send
  rw [Command.encode_nil]
  cases command.oversized? with
  | some e => trivial
  | none =>
      refine Within.perform_bind (hnote _) fun _ => Within.perform_bind hframe fun answer => ?_
      cases answer <;> trivial

theorem send_keepsLedger (command : Command) : (send command).KeepsLedger :=
  send_within command (fun _ => trivial) trivial

theorem send_aside {command : Command} (h : command.isJob = false) : (send command).Aside :=
  send_within command (fun _ => trivial) ⟨command, h, rfl⟩

theorem writeAll_aside (register : UInt8) (value : UInt32) :
    (writeAll register value).Aside :=
  send_aside rfl

end Bus

/-! ## Moving the clock -/

namespace Driver

variable {apply : Frequency → Routine ChainError Unit}

theorem follow_aside (h : ∀ f, (apply f).Aside) (ramp : Ramp)
    (stops : List Frequency) :
    (Ramp.follow (surroundings apply) ramp stops).Aside := by
  induction stops generalizing ramp with
  | nil => trivial
  | cons stop rest ih =>
      refine Within.bind (Within.attempt (h stop)) fun answer => ?_
      cases answer with
      | error e => trivial
      | ok _ =>
          refine Within.perform_bind trivial fun _ => ?_
          split
          · trivial
          · exact Within.perform_bind trivial fun _ => ih _

theorem transition_aside (h : ∀ f, (apply f).Aside) (ramp : Ramp)
    (target : Frequency) :
    (Ramp.transition (surroundings apply) ramp target).Aside := by
  unfold Ramp.transition
  dsimp only
  split
  · exact Within.perform_bind trivial fun _ => trivial
  · refine Within.perform_bind trivial fun _ => ?_
    refine Within.bind (follow_aside h ramp _) fun result => ?_
    obtain ⟨moved, outcome⟩ := result
    cases outcome with
    | error e => trivial
    | ok _ => exact Within.perform_bind trivial fun _ => trivial

theorem moveClock_aside (h : ∀ f, (apply f).Aside) (target : Frequency) :
    (moveClock apply target).Aside :=
  Within.perform_bind trivial fun ramp =>
    Within.bind (transition_aside h ramp target) fun _ =>
      Within.perform_bind trivial fun _ => Within.ofExcept _

end Driver

/-! ## Setting the clock -/

theorem Midstate.setClock_aside (target : Frequency) : (setClock target).Aside := by
  unfold setClock
  split
  · trivial
  · have hwrite : ∀ register value, (do
        pause clockRest
        Bus.writeAll register value : Routine ChainError Unit).Aside := fun _ _ =>
      Within.perform_bind trivial fun _ => Bus.writeAll_aside _ _
    exact Within.bind (Within.times (hwrite _ _) _) fun _ =>
      Within.bind (Within.times (hwrite _ _) _) fun _ =>
        Within.perform_bind trivial fun _ => Within.perform trivial

theorem Rolling.setClock_aside (target : Frequency) : (setClock target).Aside := by
  unfold setClock
  split
  · trivial
  · exact Within.bind (Bus.writeAll_aside _ _) fun _ => Within.perform trivial

/-! ## Upkeep -/

theorem Action.Idle.aside {action : Action} (h : action.Idle) : action.Aside := by
  cases action <;> trivial

theorem Command.Setup.isJob_eq_false {c : Command} (h : c.Setup) : c.isJob = false := by
  cases c <;> first | rfl | exact h.elim

/-- Upkeep of a chain of any model stays beside the work. -/
theorem Model.upkeep_aside {α : Type} (model : Model) {p : Routine ChainError α}
    (h : p.Upkeep model.setClock) : p.Aside := by
  have hclock (f : Frequency) : (model.setClock f).Aside := by
    cases model with
    | bm1397 => exact Midstate.setClock_aside f
    | _ => exact Rolling.setClock_aside f
  refine h.within fun hpart => ?_
  cases hpart with
  | perform action hidle => exact Within.perform hidle.aside
  | send c hsetup => exact Bus.send_aside hsetup.isJob_eq_false
  | moveClock target => exact Driver.moveClock_aside hclock target

end ChipChain
