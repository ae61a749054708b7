import ChipChain.Chain.Controller
import ChipChain.Proofs.Chain.Emission

/-!
# What moving the clock sends

A move follows the stops of a plan as far as the divider table reaches. Each stop
that has a setting is written in the words of the model, and the first one that
has none ends the move.
-/

namespace ChipChain

open Routine

namespace Ramp

/-- The stops that a move can get to: those before the first without a setting. -/
def reachable (stops : List Frequency) : List Frequency :=
  stops.takeWhile fun stop => (Dividers.lookup stop).isSome

/-- The first stop without a setting. -/
def barrier? (stops : List Frequency) : Option Frequency :=
  stops.find? fun stop => (Dividers.lookup stop).isNone

def settings (stops : List Frequency) : List Dividers :=
  (reachable stops).filterMap Dividers.lookup

/-- The ramp once a move along these stops has ended. -/
def movedAlong (ramp : Ramp) (stops : List Frequency) : Ramp :=
  { ramp with current := (reachable stops).getLastD ramp.current }

def outcomeOf (stops : List Frequency) : Except ChainError Unit :=
  (barrier? stops).elim (.ok ()) fun stop => .error (.noDividers stop)

section

variable {stop : Frequency} (rest : List Frequency)

theorem settings_cons_of_some {d : Dividers} (h : Dividers.lookup stop = some d) :
    settings (stop :: rest) = d :: settings rest := by
  simp [settings, reachable, h]

theorem settings_cons_of_none (h : Dividers.lookup stop = none) :
    settings (stop :: rest) = [] := by
  simp [settings, reachable, h]

theorem outcomeOf_cons_of_some {d : Dividers} (h : Dividers.lookup stop = some d) :
    outcomeOf (stop :: rest) = outcomeOf rest := by
  have hbarrier : barrier? (stop :: rest) = barrier? rest := by simp [barrier?, h]
  rw [outcomeOf, outcomeOf, hbarrier]

theorem outcomeOf_cons_of_none (h : Dividers.lookup stop = none) :
    outcomeOf (stop :: rest) = .error (.noDividers stop) := by
  have hbarrier : barrier? (stop :: rest) = some stop := by simp [barrier?, h]
  rw [outcomeOf, hbarrier, Option.elim_some]

theorem movedAlong_cons_of_some {d : Dividers} (h : Dividers.lookup stop = some d) (ramp : Ramp) :
    movedAlong ramp (stop :: rest) = movedAlong { ramp with current := stop } rest := by
  have hreach : reachable (stop :: rest) = stop :: reachable rest := by simp [reachable, h]
  rw [movedAlong, movedAlong, hreach, List.getLastD_cons]

theorem movedAlong_cons_of_none (h : Dividers.lookup stop = none) (ramp : Ramp) :
    movedAlong ramp (stop :: rest) = ramp := by
  simp [movedAlong, reachable, h]

end

end Ramp

namespace Driver

open Ramp

/-- This way of setting the clock writes the setting of a frequency in these words, and refuses a
frequency that has none. -/
structure Clocks (apply : Frequency → Routine ChainError Unit) (words : Dividers → List Command) :
    Prop where
  sets {f : Frequency} {d : Dividers} (h : Dividers.lookup f = some d) (s : Stand) :
    (apply f).Emits s (words d) (.ok ()) s
  refuses {f : Frequency} (h : Dividers.lookup f = none) (s : Stand) :
    (apply f).Emits s [] (.error (.noDividers f)) s

variable {apply : Frequency → Routine ChainError Unit} {words : Dividers → List Command}

theorem follow_emits (h : Clocks apply words) (ramp : Ramp) (stops : List Frequency) (s : Stand) :
    (follow (surroundings apply) ramp stops).Emits s ((settings stops).flatMap words)
      (.ok (movedAlong ramp stops, outcomeOf stops)) s := by
  induction stops generalizing ramp with
  | nil => exact Emits.done _ s
  | cons stop rest ih =>
      cases hlookup : Dividers.lookup stop with
      | none =>
          rw [settings_cons_of_none rest hlookup, outcomeOf_cons_of_none rest hlookup,
            movedAlong_cons_of_none rest hlookup]
          exact Emits.bind (Emits.attempt (h.refuses hlookup s)) (Emits.done _ s)
      | some d =>
          have hrest := ih { ramp with current := stop }
          rw [settings_cons_of_some rest hlookup, outcomeOf_cons_of_some rest hlookup,
            movedAlong_cons_of_some rest hlookup]
          refine Emits.bind (Emits.attempt (h.sets hlookup s)) ?_
          refine Emits.silent_bind (Emits.note _ s) ?_
          cases rest with
          | nil => exact Emits.done _ s
          | cons next rest => exact Emits.silent_bind (Emits.pause _ s) hrest

theorem transition_emits (h : Clocks apply words) (ramp : Ramp) (target : Frequency) (s : Stand) :
    (transition (surroundings apply) ramp target).Emits s
      ((settings (ramp.plan target)).flatMap words)
      (.ok (movedAlong ramp (ramp.plan target), outcomeOf (ramp.plan target))) s := by
  have hfollow := follow_emits h ramp (ramp.plan target) s
  unfold transition
  dsimp only
  generalize ramp.plan target = stops at hfollow
  split
  case isTrue hempty =>
    rw [List.isEmpty_iff.1 hempty]
    exact Emits.silent_bind (Emits.note _ s) (Emits.done _ s)
  case isFalse =>
    refine Emits.silent_bind (Emits.note _ s) (Emits.bind_silent hfollow ?_)
    cases outcomeOf stops with
    | error e => exact Emits.done _ s
    | ok _ => exact Emits.silent_bind (Emits.note _ s) (Emits.done _ s)

/-- A move of the clock ends where the table ends it, and the ramp remembers how far it came. -/
theorem moveClock_emits (h : Clocks apply words) (target : Frequency) (s : Stand) :
    (moveClock apply target).Emits s ((settings (s.ramp.plan target)).flatMap words)
      (outcomeOf (s.ramp.plan target))
      { s with ramp := movedAlong s.ramp (s.ramp.plan target) } :=
  Emits.silent_bind (Emits.readRamp s) <|
    Emits.bind_silent (transition_emits h s.ramp target s) <|
      Emits.silent_bind (Emits.storeRamp _ s) (Emits.ofExcept _ _)

theorem moveClock_bind_emits (h : Clocks apply words) (target : Frequency) (s : Stand) {α : Type}
    {f : Unit → Routine ChainError α} {closing : List Command} {value : α}
    (hf : ∀ s, (f ()).Emits s closing (.ok value) s) :
    (moveClock apply target >>= f).Emits s
      ((settings (s.ramp.plan target)).flatMap words ++
        if (barrier? (s.ramp.plan target)).isNone then closing else [])
      ((outcomeOf (s.ramp.plan target)).map fun _ => value)
      { s with ramp := movedAlong s.ramp (s.ramp.plan target) } := by
  have hmove := moveClock_emits h target s
  rw [outcomeOf] at hmove ⊢
  cases hbarrier : barrier? (s.ramp.plan target) with
  | none =>
      rw [hbarrier] at hmove
      exact Emits.bind hmove (hf _)
  | some stop =>
      rw [hbarrier] at hmove
      rw [Option.isNone_some, if_neg Bool.false_ne_true, List.append_nil]
      exact Emits.bind_error hmove f

end Driver

namespace Model

def clockWord : Model → Dividers → UInt32
  | .bm1397 => Midstate.clockWord
  | _ => Rolling.clockWord

def clockWrites (model : Model) (d : Dividers) : List Command :=
  let word := Command.writeAll Register.pll0Parameter (model.clockWord d)
  match model with
  | .bm1397 => List.replicate 2 (Command.writeAll Register.pll0Divider 0x0f0f0f00) ++ [word, word]
  | _ => [word]

theorem clockWrites_of_rolling {model : Model} (h : model ≠ .bm1397) (d : Dividers) :
    model.clockWrites d = [.writeAll Register.pll0Parameter (Rolling.clockWord d)] := by
  cases model with
  | bm1397 => exact absurd rfl h
  | _ => rfl

theorem setFrequency_of_rolling {model : Model} (h : model ≠ .bm1397) (target : Frequency) :
    model.driver.setFrequency target = Driver.moveClock Rolling.setClock target := by
  cases model with
  | bm1397 => exact absurd rfl h
  | _ => rfl

end Model

theorem Rolling.setClock_emits {model : Model} (h : model ≠ .bm1397) :
    Driver.Clocks setClock model.clockWrites where
  sets {f d} hlookup s := by
    rw [setClock, hlookup, model.clockWrites_of_rolling h]
    exact Emits.bind_silent (Bus.writeAll_emits _ _) (Emits.note _ s)
  refuses {f} hlookup s := by
    rw [setClock, hlookup]
    exact Emits.fail _ s

theorem Midstate.twice_emits (register : UInt8) (value : UInt32) (s : Stand) :
    (times 2 do
      pause clockRest
      Bus.writeAll register value : Routine ChainError Unit).Emits s
      [.writeAll register value, .writeAll register value] (.ok ()) s := by
  have honce : (do
      pause clockRest
      Bus.writeAll register value : Routine ChainError Unit).Emits s
      [.writeAll register value] (.ok ()) s :=
    Emits.silent_bind (Emits.pause _ s) (Bus.writeAll_emits _ _)
  exact Emits.times honce 2

theorem Midstate.setClock_emits : Driver.Clocks setClock Model.bm1397.clockWrites where
  sets {f d} hlookup s := by
    rw [setClock, hlookup]
    exact Emits.bind (twice_emits _ _ s) <| Emits.bind_silent (twice_emits _ _ s) <|
      Emits.silent_bind (Emits.pause _ s) (Emits.note _ s)
  refuses {f} hlookup s := by
    rw [setClock, hlookup]
    exact Emits.fail _ s

end ChipChain
