import ChipChain.Proofs.Chain.Clocking

/-!
# The scripts of bring-up

What is sent to a chain that is brought up, model by model, as one script: an
opening, the addresses, registers of all chips and of each chip, the clock, and
a closing.
-/

namespace ChipChain

open Routine Ramp

/-! ## Commands -/

namespace Command

def isAddressing : Command → Bool
  | .chainInactive => true
  | .setAddress _ => true
  | _ => false

def chipWrite? : Command → Option (UInt8 × UInt8 × UInt32)
  | .writeRegister false chip register value => some (chip, register, value)
  | _ => none

/-- The command writes this register of one chip or of all. -/
def writes (register : UInt8) : Command → Bool
  | .writeRegister _ _ written _ => written == register
  | _ => false

/-- A command to all chips that leaves their addresses, the ticket mask and the clock alone. -/
def Plain : Command → Prop
  | .writeRegister true _ register _ =>
    register ≠ Register.ticketMask ∧ register ≠ Register.pll0Parameter
  | .readRegister true _ _ => True
  | _ => False

theorem Plain.properties {c : Command} (h : c.Plain) :
    c.isAddressing = false ∧ c.chipWrite? = none ∧ c.writes Register.ticketMask = false ∧
      c.writes Register.pll0Parameter = false := by
  cases c with
  | writeRegister broadcast chip register value =>
      cases broadcast with
      | true => exact ⟨rfl, rfl, beq_false_of_ne h.1, beq_false_of_ne h.2⟩
      | false => exact h.elim
  | readRegister broadcast chip register => exact ⟨rfl, rfl, rfl, rfl⟩
  | _ => exact h.elim

end Command

open Command

/-! ## Scripts -/

/-- What bringing up a chain of one model sends, apart from the addresses, the ticket mask and the
clock. -/
structure Script where
  opening : List Command
  cores : List Command
  analog : List Command
  /-- The writes to each chip, as registers with values. -/
  chipSetup : List (UInt8 × UInt32)
  late : List Command
  closing : List Command

namespace Script

structure Sound (script : Script) : Prop where
  plain : ∀ c ∈ script.opening ++ script.cores ++ script.analog ++ script.late ++ script.closing,
    c.Plain
  chips : ∀ write ∈ script.chipSetup,
    write.1 ≠ Register.ticketMask ∧ write.1 ≠ Register.pll0Parameter

def chipWrites (script : Script) (address : UInt8) : List Command :=
  script.chipSetup.map fun (register, value) => .writeChip address register value

def ticketWrite (difficulty : UInt32) : Command :=
  .writeAll Register.ticketMask (ticketMaskWord difficulty)

def tuning (script : Script) (model : Model) (addresses : List UInt8) (difficulty : UInt32)
    (stops : List Frequency) : List Command :=
  script.cores ++ (ticketWrite difficulty :: (script.analog ++
    (addresses.flatMap script.chipWrites ++ (script.late ++
      ((settings stops).flatMap model.clockWrites ++
        if (barrier? stops).isNone then script.closing else [])))))

/-- All that is sent; nothing follows the opening where there is no plan of addresses. -/
def sent (script : Script) (model : Model) (plan : Except AddressOverflow AddressPlan)
    (difficulty : UInt32) (stops : List Frequency) : List Command :=
  script.opening ++
    match plan with
    | .error _ => []
    | .ok plan =>
      .chainInactive :: plan.addresses.map .setAddress ++
        script.tuning model plan.addresses difficulty stops

/-- What the host is told: the count, unless addresses or a setting of the clock are missing. -/
def outcome (plan : Except AddressOverflow AddressPlan) (stops : List Frequency) (count : Nat) :
    Except ChainError Nat :=
  match plan with
  | .error e => .error (.addresses e)
  | .ok _ => (outcomeOf stops).map fun _ => count

/-- Where the chain stands afterwards: the clock has been moved if there was a plan. -/
def standAfter (plan : Except AddressOverflow AddressPlan) (stops : List Frequency) (s : Stand) :
    Stand :=
  match plan with
  | .error _ => s
  | .ok _ => { s with ramp := movedAlong s.ramp stops }

end Script

/-! ## The scripts of the models -/

namespace Rolling

def versionMaskWrite (mask : UInt32) : Command :=
  .writeAll Register.versionMask ((0x90000000 : UInt32) ||| ((mask >>> 13) &&& 0xffff))

def chipSetup (profile : RollingProfile) : List (UInt8 × UInt32) :=
  (Register.initControl, 0x000701f0) :: (Register.miscControl, 0xf000c100) ::
    (profile.coreControl.map (Register.coreRegisterControl, ·) ++
      [(Register.coreRegisterControl, 0x800082aa)])

theorem chipSetup_sound (profile : RollingProfile) :
    ∀ write ∈ chipSetup profile,
      write.1 ≠ Register.ticketMask ∧ write.1 ≠ Register.pll0Parameter := by
  intro write hwrite
  simp only [chipSetup, List.mem_cons, List.mem_append, List.mem_map, List.not_mem_nil,
    or_false] at hwrite
  rcases hwrite with rfl | rfl | ⟨word, -, rfl⟩ | rfl <;> dsimp only <;> decide

def script (profile : RollingProfile) (target : Frequency) (chips : Nat) : Script where
  opening :=
    [versionMaskWrite defaultVersionMask, versionMaskWrite defaultVersionMask,
      versionMaskWrite defaultVersionMask, .readAll Register.chipAddress,
      .writeAll Register.initControl 0x00070000,
      .writeAll Register.miscControl profile.miscControl]
  cores := profile.coreControl.map fun word => .writeAll Register.coreRegisterControl word
  analog :=
    .writeAll Register.analogMuxControl profile.analogMux ::
      profile.driverStrength.toList.map fun word => .writeAll Register.ioDriverStrength word
  chipSetup := chipSetup profile
  late := profile.lateWrites.map fun (register, word) => .writeAll register word
  closing :=
    [.writeAll Register.hashCountingNumber
      (hashCountingNumber profile.family.coreCount (addressInterval chips) target),
      versionMaskWrite defaultVersionMask]

theorem setVersionMask_emits (mask : UInt32) (s : Stand) :
    (setVersionMask mask).Emits s [versionMaskWrite mask] (.ok ()) s :=
  Bus.writeAll_emits _ _

theorem setNonceRange_emits (profile : RollingProfile) (f : Frequency) (chips : Nat) (s : Stand) :
    (setNonceRange profile f chips).Emits s
      [.writeAll Register.hashCountingNumber
        (hashCountingNumber profile.family.coreCount (addressInterval chips) f)] (.ok ()) s :=
  Emits.silent_bind (Emits.note _ s) (Bus.writeAll_emits _ _)

theorem configureChip_emits (profile : RollingProfile) (target : Frequency) (chips : Nat)
    (address : UInt8) (s : Stand) :
    (configureChip profile address).Emits s ((script profile target chips).chipWrites address)
      (.ok ()) s := by
  have hcores := Emits.forEach_map (fun word => Bus.writeChip_emits (s := s) address
    Register.coreRegisterControl word) profile.coreControl
  have hwrites : (script profile target chips).chipWrites address =
      .writeChip address Register.initControl 0x000701f0 ::
        .writeChip address Register.miscControl 0xf000c100 ::
          (profile.coreControl.map (.writeChip address Register.coreRegisterControl ·) ++
            [.writeChip address Register.coreRegisterControl 0x800082aa]) := by
    simp [Script.chipWrites, script, chipSetup, Function.comp_def]
  rw [hwrites]
  exact Emits.bind (Bus.writeChip_emits _ _ _) <| Emits.bind (Bus.writeChip_emits _ _ _) <|
    Emits.bind hcores (Bus.writeChip_emits _ _ _)

theorem init_emits {profile : RollingProfile} (hid : profile.family.chipId ≠ 0)
    (hlength : 0 < profile.family.identityLength) {model : Model} (hmodel : model ≠ .bm1397)
    (target : Frequency) (chips : Nat) (difficulty : UInt32) (s : Stand)
    (hanswered : 0 < Bus.identities profile.family s.replies) :
    ∃ rest, (init profile target chips difficulty).Emits s
      ((script profile target chips).sent model (AddressPlan.evenlySpaced chips) difficulty
        (s.ramp.plan target))
      (Script.outcome (AddressPlan.evenlySpaced chips) (s.ramp.plan target)
        (min (Bus.identities profile.family s.replies) Bus.maxCount))
      (Script.standAfter (AddressPlan.evenlySpaced chips) (s.ramp.plan target)
        { s with replies := rest }) := by
  obtain ⟨rest, hcount⟩ := Bus.countChips_emits (s := s) hid hlength chips
  have hdetected : min (Bus.identities profile.family s.replies) Bus.maxCount ≠ 0 := by
    rw [Bus.maxCount]
    omega
  refine ⟨rest, ?_⟩
  have hmasks := Emits.times (setVersionMask_emits defaultVersionMask s) 3
  refine hmasks.bind ?_
  refine Emits.cons_bind (Bus.send_emits trivial) ?_
  refine Emits.silent_bind hcount ?_
  rw [if_neg hdetected]
  refine Emits.cons_bind (Bus.writeAll_emits _ _) (Emits.cons_bind (Bus.writeAll_emits _ _) ?_)
  cases AddressPlan.evenlySpaced chips with
  | error e => exact Emits.bind_error (Emits.fail _ _) _
  | ok plan =>
      refine Emits.silent_bind (Emits.done plan _) ?_
      change Emits _ _ (.chainInactive :: plan.addresses.map .setAddress ++ _) _ _
      refine Emits.bind (Bus.assignAddresses_emits plan) ?_
      refine Emits.bind (Emits.forEach_map (fun _ => Bus.writeAll_emits _ _) _) ?_
      refine Emits.cons_bind (Bus.writeTicketMask_emits difficulty) ?_
      refine Emits.cons_bind (Bus.writeAll_emits _ _) ?_
      refine Emits.bind (Emits.forEach_map (fun _ => Bus.writeAll_emits _ _) _) ?_
      refine Emits.bind (Emits.forEach (fun _ => configureChip_emits _ target chips _ _) _) ?_
      refine Emits.bind (Emits.forEach_map (fun _ => Bus.writeAll_emits _ _) _) ?_
      refine Driver.moveClock_bind_emits (setClock_emits hmodel) target _ fun s => ?_
      exact Emits.bind (setNonceRange_emits _ _ _ s) <|
        Emits.bind_silent (setVersionMask_emits _ s) (Emits.done _ s)

end Rolling

namespace Midstate

def script : Script where
  opening := [.readAll Register.chipAddress]
  cores :=
    [.writeAll Register.clockOrderControl0 0, .writeAll Register.clockOrderControl1 0,
      .writeAll Register.orderedClockEnable 1, .writeAll Register.coreRegisterControl 0x80008074]
  analog :=
    [.writeAll Register.pll3Parameter 0xc0700111,
      .writeAll Register.fastUartConfiguration 0x0600000f,
      .writeAll Register.miscControl 0x00007a31]
  chipSetup := []
  late := []
  closing := []

theorem init_emits (target : Frequency) (chips : Nat) (difficulty : UInt32) (s : Stand)
    (hanswered : 0 < Bus.identities family s.replies) :
    ∃ rest, (init target chips difficulty).Emits s
      (script.sent .bm1397 (AddressPlan.evenlySpaced chips) difficulty (s.ramp.plan target))
      (Script.outcome (AddressPlan.evenlySpaced chips) (s.ramp.plan target)
        (min (Bus.identities family s.replies) Bus.maxCount))
      (Script.standAfter (AddressPlan.evenlySpaced chips) (s.ramp.plan target)
        { s with replies := rest }) := by
  obtain ⟨rest, hcount⟩ :=
    Bus.countChips_emits (s := s) (by decide : family.chipId ≠ 0) (by decide) chips
  have hdetected : min (Bus.identities family s.replies) Bus.maxCount ≠ 0 := by
    rw [Bus.maxCount]
    omega
  refine ⟨rest, ?_⟩
  refine Emits.cons_bind (Bus.send_emits trivial) ?_
  refine Emits.silent_bind hcount ?_
  rw [if_neg hdetected]
  refine Emits.silent_bind (Emits.pause _ _) ?_
  cases AddressPlan.evenlySpaced chips with
  | error e => exact Emits.bind_error (Emits.fail _ _) _
  | ok plan =>
      have hchips : plan.addresses.flatMap script.chipWrites = [] :=
        List.flatMap_eq_nil_iff.2 fun _ _ => rfl
      refine Emits.silent_bind (Emits.done plan _) ?_
      change Emits _ _ (.chainInactive :: plan.addresses.map .setAddress ++ _) _ _
      refine Emits.bind (Bus.assignAddresses_emits plan) ?_
      rw [Script.tuning, hchips]
      refine Emits.cons_bind (Bus.writeAll_emits _ _) ?_
      refine Emits.cons_bind (Bus.writeAll_emits _ _) ?_
      refine Emits.cons_bind (Bus.writeAll_emits _ _) ?_
      refine Emits.cons_bind (Bus.writeAll_emits _ _) ?_
      refine Emits.cons_bind (Bus.writeTicketMask_emits difficulty) ?_
      refine Emits.cons_bind (Bus.writeAll_emits _ _) ?_
      refine Emits.cons_bind (Bus.writeAll_emits _ _) ?_
      refine Emits.cons_bind (Bus.writeAll_emits _ _) ?_
      exact Driver.moveClock_bind_emits setClock_emits target _ fun s => Emits.done _ s

end Midstate

namespace Model

def script : Model → Frequency → Nat → Script
  | .bm1397, _, _ => Midstate.script
  | .bm1366, target, chips => Rolling.script .bm1366 target chips
  | .bm1368, target, chips => Rolling.script .bm1368 target chips
  | .bm1370, target, chips => Rolling.script .bm1370 target chips

/-- Bringing up a chain of any model follows the model's script. -/
theorem init_emits (model : Model) (target : Frequency) (chips : Nat) (difficulty : UInt32)
    (s : Stand) (hanswered : 0 < Bus.identities model.family s.replies) :
    ∃ rest, (model.driver.init target chips difficulty).Emits s
      ((model.script target chips).sent model (AddressPlan.evenlySpaced chips) difficulty
        (s.ramp.plan target))
      (Script.outcome (AddressPlan.evenlySpaced chips) (s.ramp.plan target)
        (min (Bus.identities model.family s.replies) Bus.maxCount))
      (Script.standAfter (AddressPlan.evenlySpaced chips) (s.ramp.plan target)
        { s with replies := rest }) := by
  cases model with
  | bm1397 => exact Midstate.init_emits target chips difficulty s hanswered
  | _ =>
      exact Rolling.init_emits (by decide) (by decide) (by decide) target chips difficulty s
        hanswered

def chipSetup : Model → List (UInt8 × UInt32)
  | .bm1397 => []
  | .bm1366 => Rolling.chipSetup .bm1366
  | .bm1368 => Rolling.chipSetup .bm1368
  | .bm1370 => Rolling.chipSetup .bm1370

theorem script_chipSetup (model : Model) (target : Frequency) (chips : Nat) :
    (model.script target chips).chipSetup = model.chipSetup := by
  cases model <;> rfl

theorem script_sound (model : Model) (target : Frequency) (chips : Nat) :
    (model.script target chips).Sound := by
  constructor
  · cases model <;>
      simp [script, Midstate.script, Rolling.script, RollingProfile.bm1366, RollingProfile.bm1368,
        RollingProfile.bm1370, Rolling.versionMaskWrite, Command.Plain, Command.writeAll,
        Command.readAll] <;> decide
  · rw [script_chipSetup]
    cases model with
    | bm1397 => exact nofun
    | _ => exact Rolling.chipSetup_sound _

end Model

end ChipChain
