import ChipChain.Chain.Controller
import ChipChain.Proofs.Routine.Composed

/-!
# What upkeep consists of

Bringing a chain up and setting its registers is put together from three kinds of
parts: actions that neither send nor touch the work or the ramp, commands that are
neither jobs nor settings of the clock, and moves of the clock. Each routine of a
driver is taken apart here, once; what holds of the parts is shown elsewhere.
-/

namespace ChipChain

open Routine

/-- The action reads, waits or reports, and leaves the driver's own state alone. -/
def Action.Idle : Action → Prop
  | .collect _ _ => True
  | .pause _ => True
  | .note _ => True
  | _ => False

theorem Action.Idle.quiet {action : Action} (h : action.Idle) (frame : Bytes) :
    action ≠ .transmit frame := by
  rintro rfl
  exact h

theorem Action.Idle.keepsRamp {action : Action} (h : action.Idle) (ramp : Ramp) :
    action ≠ .storeRamp ramp := by
  rintro rfl
  exact h

/-- The command concerns neither the work nor the clock. -/
def Command.Setup : Command → Prop
  | .job _ => False
  | .writeRegister _ _ register _ => register ≠ Register.pll0Parameter
  | _ => True

/-- The parts of upkeep, for one way of setting the clock. -/
inductive Driver.Part (apply : Frequency → Routine ChainError Unit) :
    ∀ α : Type, Routine ChainError α → Prop
  | perform (action : Action) (h : action.Idle) : Part apply _ (Routine.perform action)
  | send (c : Command) (h : c.Setup) : Part apply _ (Bus.send c)
  | moveClock (target : Frequency) : Part apply _ (Driver.moveClock apply target)

/-- The routine is upkeep of a chain whose clock is set in this way. -/
abbrev Routine.Upkeep {α : Type} (apply : Frequency → Routine ChainError Unit)
    (p : Routine ChainError α) : Prop :=
  p.Composed (Driver.Part apply)

variable {apply : Frequency → Routine ChainError Unit}

namespace Routine.Upkeep

variable {α : Type}

theorem perform {action : Action} (h : action.Idle) :
    (Routine.perform action : Routine ChainError action.Answer).Upkeep apply :=
  .part (.perform action h)

theorem note (entry : Entry) : (Routine.note entry : Routine ChainError Unit).Upkeep apply :=
  .part (.perform (.note entry) trivial)

theorem perform_bind {action : Action} {f : action.Answer → Routine ChainError α}
    (h : action.Idle) (hf : ∀ answer, (f answer).Upkeep apply) :
    (Routine.perform action >>= f).Upkeep apply :=
  .bind (perform h) hf

theorem send {c : Command} (h : c.Setup) : (Bus.send c).Upkeep apply :=
  .part (.send c h)

theorem writeAll {register : UInt8} (value : UInt32) (h : register ≠ Register.pll0Parameter) :
    (Bus.writeAll register value).Upkeep apply :=
  send h

theorem writeChip {register : UInt8} (chip : UInt8) (value : UInt32)
    (h : register ≠ Register.pll0Parameter) :
    (Bus.writeChip chip register value).Upkeep apply :=
  send h

theorem writeAll_bind {register : UInt8} {value : UInt32} {f : Unit → Routine ChainError α}
    (h : register ≠ Register.pll0Parameter) (hf : ∀ answer, (f answer).Upkeep apply) :
    (Bus.writeAll register value >>= f).Upkeep apply :=
  .bind (writeAll value h) hf

end Routine.Upkeep

/-! ## The bus -/

namespace Bus

theorem writeTicketMask_upkeep (difficulty : UInt32) :
    (writeTicketMask difficulty).Upkeep apply :=
  Upkeep.perform_bind trivial fun _ => Upkeep.writeAll _ (by decide)

theorem assignAddresses_upkeep (plan : AddressPlan) : (assignAddresses plan).Upkeep apply := by
  have haddress (address : UInt8) : (send (.setAddress address)).Upkeep apply :=
    Upkeep.send trivial
  refine .bind (Upkeep.send (c := .chainInactive) trivial) fun _ => ?_
  exact .bind (.forEach fun address _ => haddress address) fun _ => Upkeep.note _

theorem countIdentities_upkeep (family : Family) (count : Nat) (responses : List Bytes) :
    (countIdentities family count responses).Upkeep apply := by
  induction responses generalizing count with
  | nil => exact .done count
  | cons response rest ih => exact Upkeep.perform_bind trivial fun _ => ih _

theorem countChips_upkeep (family : Family) (expected : Nat) :
    (countChips family expected).Upkeep apply := by
  refine Upkeep.perform_bind trivial fun series => ?_
  refine .bind (countIdentities_upkeep ..) fun count => ?_
  refine .bind (.forEach fun entry _ => Upkeep.note entry) fun _ => ?_
  dsimp only
  split
  · exact Upkeep.perform_bind trivial fun _ => Upkeep.perform_bind trivial fun _ => .done _
  · exact Upkeep.perform_bind trivial fun _ => .done _

end Bus

/-! ## The chips that take midstates -/

theorem Midstate.init_upkeep (target : Frequency) (chips : Nat) (difficulty : UInt32) :
    (init target chips difficulty).Upkeep setClock := by
  unfold init
  refine .bind (Upkeep.send trivial) fun _ => ?_
  refine .bind (Bus.countChips_upkeep _ _) fun detected => ?_
  split
  · exact .done 0
  refine Upkeep.perform_bind trivial fun _ => ?_
  refine .bind (.ofExcept _) fun plan => ?_
  refine .bind (Bus.assignAddresses_upkeep plan) fun _ => ?_
  refine Upkeep.writeAll_bind (by decide) fun _ => Upkeep.writeAll_bind (by decide) fun _ => ?_
  refine Upkeep.writeAll_bind (by decide) fun _ => Upkeep.writeAll_bind (by decide) fun _ => ?_
  refine .bind (Bus.writeTicketMask_upkeep _) fun _ => ?_
  refine Upkeep.writeAll_bind (by decide) fun _ => Upkeep.writeAll_bind (by decide) fun _ => ?_
  refine Upkeep.writeAll_bind (by decide) fun _ => ?_
  exact .bind (.part (.moveClock target)) fun _ => .done detected

/-! ## The chips that roll versions -/

namespace Rolling

theorem setVersionMask_upkeep (mask : UInt32) : (setVersionMask mask).Upkeep apply :=
  Upkeep.writeAll _ (by decide)

theorem setNonceRange_upkeep (profile : RollingProfile) (f : Frequency) (chips : Nat) :
    (setNonceRange profile f chips).Upkeep apply :=
  Upkeep.perform_bind trivial fun _ => Upkeep.writeAll _ (by decide)

theorem configureChip_upkeep (profile : RollingProfile) (address : UInt8) :
    (configureChip profile address).Upkeep apply := by
  have hcore (word : UInt32) :
      (Bus.writeChip address Register.coreRegisterControl word).Upkeep apply :=
    Upkeep.writeChip _ _ (by decide)
  refine .bind (Upkeep.writeChip _ _ (by decide)) fun _ => ?_
  refine .bind (Upkeep.writeChip _ _ (by decide)) fun _ => ?_
  exact .bind (.forEach fun word _ => hcore word) fun _ => hcore _

theorem init_upkeep {profile : RollingProfile}
    (hlate : Register.pll0Parameter ∉ profile.lateWrites.map Prod.fst) (target : Frequency)
    (chips : Nat) (difficulty : UInt32) :
    (init profile target chips difficulty).Upkeep setClock := by
  have hwrite (register : UInt8) (h : register ≠ Register.pll0Parameter) (value : UInt32) :
      (Bus.writeAll register value).Upkeep setClock := Upkeep.writeAll value h
  unfold init
  refine .bind (.times (setVersionMask_upkeep _) _) fun _ => ?_
  refine .bind (Upkeep.send trivial) fun _ => ?_
  refine .bind (Bus.countChips_upkeep _ _) fun detected => ?_
  split
  · exact .done 0
  refine Upkeep.writeAll_bind (by decide) fun _ => Upkeep.writeAll_bind (by decide) fun _ => ?_
  refine .bind (.ofExcept _) fun plan => ?_
  refine .bind (Bus.assignAddresses_upkeep plan) fun _ => ?_
  refine .bind (.forEach fun word _ => hwrite _ (by decide) word) fun _ => ?_
  refine .bind (Bus.writeTicketMask_upkeep _) fun _ => ?_
  refine Upkeep.writeAll_bind (by decide) fun _ => ?_
  refine .bind (.forEach fun word _ => hwrite _ (by decide) word) fun _ => ?_
  refine .bind (.forEach fun address _ => configureChip_upkeep profile address) fun _ => ?_
  have hspared {write : UInt8 × UInt32} (hmem : write ∈ profile.lateWrites) :
      write.1 ≠ Register.pll0Parameter := fun h => hlate (h ▸ List.mem_map_of_mem hmem)
  refine .bind (.forEach fun write hmem => hwrite _ (hspared hmem) _) fun _ => ?_
  refine .bind (.part (.moveClock target)) fun _ => ?_
  refine .bind (setNonceRange_upkeep _ _ _) fun _ => ?_
  exact .bind (setVersionMask_upkeep _) fun _ => .done detected

theorem setMaxBaud_upkeep (profile : RollingProfile) : (setMaxBaud profile).Upkeep apply :=
  Upkeep.perform_bind trivial fun _ => Upkeep.writeAll_bind (by decide) fun _ => .done _

end Rolling

/-! ## Every model -/

namespace Model

def setClock : Model → Frequency → Routine ChainError Unit
  | .bm1397 => Midstate.setClock
  | _ => Rolling.setClock

variable (model : Model)

theorem init_upkeep (target : Frequency) (chips : Nat) (difficulty : UInt32) :
    (model.driver.init target chips difficulty).Upkeep model.setClock := by
  cases model with
  | bm1397 => exact Midstate.init_upkeep target chips difficulty
  | _ => exact Rolling.init_upkeep (by decide) target chips difficulty

theorem setMaxBaud_upkeep : model.driver.setMaxBaud.Upkeep model.setClock := by
  cases model with
  | bm1397 =>
      exact Upkeep.perform_bind trivial fun _ => Upkeep.writeAll_bind (by decide) fun _ => .done _
  | _ => exact Rolling.setMaxBaud_upkeep _

theorem setDifficulty_upkeep (difficulty : UInt32) :
    (model.driver.setDifficulty difficulty).Upkeep model.setClock := by
  cases model <;> exact Bus.writeTicketMask_upkeep difficulty

theorem setVersionMask_upkeep (mask : UInt32) :
    (model.driver.setVersionMask mask).Upkeep model.setClock := by
  cases model with
  | bm1397 => exact .done ()
  | _ => exact Rolling.setVersionMask_upkeep mask

theorem setFrequency_upkeep (target : Frequency) :
    (model.driver.setFrequency target).Upkeep model.setClock := by
  cases model with
  | bm1397 => exact Upkeep.perform_bind trivial fun _ => .fail _
  | _ => exact .part (.moveClock target)

theorem setNonceRange_upkeep (target : Frequency) (chips : Nat) :
    (model.driver.setNonceRange target chips).Upkeep model.setClock := by
  cases model with
  | bm1397 => exact .done ()
  | _ => exact Rolling.setNonceRange_upkeep _ target chips

end Model

end ChipChain
