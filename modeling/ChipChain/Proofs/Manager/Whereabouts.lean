import ChipChain.Proofs.Chain.ClockJumps
import ChipChain.Proofs.Manager.History

/-!
# What a manager reports of the chain

A manager is meant to know which frequency the chain has last reached. It learns of a
move only whether the move succeeded, and a move that fails leaves the ramp on the way:
after one such move the manager may be wrong by megahertz (`ramp_astray`). What holds of
every history is `reported_until_astray`: the ramp is where the manager says, to a
kilohertz, but for the moves that have failed since the last one that succeeded.
-/

namespace ChipChain

open Routine

/-! ## One move -/

namespace Ramp

/-- The ramp has moved along its plan for a target, all the way exactly if the move succeeded. -/
def MovedFor (ramp : Ramp) (target : Frequency) (success : Bool) (moved : Ramp) : Prop :=
  ∃ passed left, ramp.plan target = passed ++ left ∧ (success = true ↔ left = []) ∧
    moved = { ramp with current := passed.getLastD ramp.current }

theorem MovedFor.arrived {ramp moved : Ramp} {target : Frequency}
    (h : ramp.MovedFor target true moved) :
    (moved.current.absDiff target).hz ≤ tolerance.hz := by
  obtain ⟨passed, left, hplan, hsuccess, rfl⟩ := h
  rw [hsuccess.1 rfl, List.append_nil] at hplan
  by_cases hnear : (ramp.current.absDiff target).hz ≤ tolerance.hz
  · rw [plan_eq_nil_iff.2 hnear] at hplan
    rw [← hplan]
    exact hnear
  · have hlast : passed.getLastD ramp.current = target := by
      rw [List.getLastD_eq_getLast?, ← hplan, getLast?_plan hnear]
      rfl
    rw [hlast, Frequency.absDiff]
    simp

/-- One after the other, moves to these targets have failed. -/
inductive Strayed (start : Ramp) : List Frequency → Ramp → Prop
  | nowhere : Strayed start [] start
  | further {targets : List Frequency} {target : Frequency} {ramp moved : Ramp}
      (h : Strayed start targets ramp) (hmove : ramp.MovedFor target false moved) :
      Strayed start (targets ++ [target]) moved

theorem Strayed.eq_of_nil {start ramp : Ramp} (h : start.Strayed [] ramp) : ramp = start := by
  generalize hnone : ([] : List Frequency) = targets at h
  cases h with
  | nowhere => rfl
  | further => simp at hnone

end Ramp

namespace Driver

variable (apply : Frequency → Routine ChainError Unit)

theorem run_follow_along (ramp : Ramp) (stops : List Frequency) (w : World) :
    ∃ passed left outcome after, stops = passed ++ left ∧ (outcome = .ok () ↔ left = []) ∧
      (Ramp.follow (surroundings apply) ramp stops).run w =
        (.ok ({ ramp with current := passed.getLastD ramp.current }, outcome), after) := by
  induction stops generalizing ramp w with
  | nil => exact ⟨[], [], .ok (), w, rfl, Iff.rfl.trans (by simp), rfl⟩
  | cons stop rest ih =>
      have happly : (surroundings apply).apply stop = (apply stop).attempt := rfl
      rw [Ramp.follow, Routine.run_bind, happly, run_attempt]
      generalize (apply stop).run w = result
      obtain ⟨outcome, w₁⟩ := result
      cases outcome with
      | error e => exact ⟨[], stop :: rest, .error e, w₁, rfl, by simp, rfl⟩
      | ok _ =>
          cases rest with
          | nil => exact ⟨[stop], [], .ok (), _, rfl, by simp, rfl⟩
          | cons next rest =>
              obtain ⟨passed, left, outcome, after, hstops, hend, hrun⟩ :=
                ih { ramp with current := stop } ((w₁.record (Ramp.applied stop)).after ramp.settle)
              refine ⟨stop :: passed, left, outcome, after, by rw [hstops]; rfl, hend, ?_⟩
              rw [List.getLastD_cons]
              exact hrun

theorem run_transition_along (ramp : Ramp) (target : Frequency) (w : World) :
    ∃ moved outcome after,
      (Ramp.transition (surroundings apply) ramp target).run w = (.ok (moved, outcome), after) ∧
        ramp.MovedFor target outcome.toBool moved := by
  have hsuccess : ∀ {outcome : Except ChainError Unit} {left : List Frequency},
      (outcome = .ok () ↔ left = []) → (outcome.toBool = true ↔ left = []) := by
    intro outcome left h
    rw [← h]
    cases outcome <;> simp [Except.toBool]
  unfold Ramp.transition
  dsimp only
  split
  case isTrue hnone =>
    have hplan : ramp.plan target = [] := List.isEmpty_iff.1 hnone
    exact ⟨ramp, .ok (), _, rfl, [], [], hplan, by simp [Except.toBool], rfl⟩
  case isFalse =>
    have hstart : (surroundings apply).note
        (Ramp.beginning ramp.current target (ramp.plan target).length) = note _ := rfl
    obtain ⟨passed, left, outcome, after, hplan, hend, hrun⟩ :=
      run_follow_along apply ramp (ramp.plan target)
        (w.record (Ramp.beginning ramp.current target (ramp.plan target).length))
    rw [hstart, run_note_bind, run_bind, ← World.record, hrun]
    cases outcome with
    | error e => exact ⟨_, _, _, rfl, passed, left, hplan, hsuccess hend, rfl⟩
    | ok _ => exact ⟨_, _, _, rfl, passed, left, hplan, hsuccess hend, rfl⟩

theorem run_moveClock_along (target : Frequency) (w : World) :
    w.ramp.MovedFor target ((moveClock apply target).run w).1.toBool
      ((moveClock apply target).run w).2.ramp := by
  obtain ⟨moved, outcome, after, hrun, hmoved⟩ := run_transition_along apply w.ramp target w
  have hmove : (moveClock apply target).run w = (outcome, { after with ramp := moved }) := by
    have hread : (moveClock apply target).run w =
        (Ramp.transition (surroundings apply) w.ramp target >>= fun result => do
          storeRamp result.1
          ofExcept result.2).run w := rfl
    rw [hread, run_bind, hrun]
    cases outcome <;> rfl
  rw [hmove]
  exact hmoved

end Driver

/-- A chain that rolls versions moves its ramp along the plan, and says whether it got to the end. -/
theorem Controller.run_setFrequency_along {model : Model} (hmodel : model ≠ .bm1397)
    {jobInterval : Option Nat} {target : Frequency} {w after : World} {success : Bool}
    (h : ((ofModel model jobInterval).setFrequency target : Routine Empty Bool).run w =
      (.ok success, after)) : w.ramp.MovedFor target success after.ramp := by
  have hdriver : model.driver.setFrequency target = Driver.moveClock Rolling.setClock target := by
    cases model with
    | bm1397 => exact absurd rfl hmodel
    | _ => rfl
  obtain ⟨asking, telling, hrun⟩ := run_setFrequency_eq (ofModel model jobInterval) target w
  have halong := Driver.run_moveClock_along Rolling.setClock target (w.record asking)
  rw [hrun, ofModel, hdriver] at h
  obtain ⟨hsuccess, rfl⟩ := Prod.mk.inj h
  rw [← Except.ok.inj hsuccess]
  exact halong

/-! ## Histories -/

namespace Manager

/-- The targets of the calls that have failed, with this request, since the last one that succeeded. -/
def Request.misses (missed : List Frequency) : Request → List Frequency
  | voltage _ => missed
  | clock _ true => []
  | clock target false => missed ++ [target]

/-- The targets of the calls that have failed since the last one that succeeded. -/
def missed (seen : List Visit) : List Frequency :=
  (seen.flatMap Visit.requests).foldl Request.misses []

theorem missed_concat (seen : List Visit) (v : Visit) :
    missed (seen ++ [v]) = v.requests.foldl Request.misses (missed seen) := by
  simp [missed]

/-- But for the moves that have failed since the last one that succeeded, the ramp stands where the
manager says. -/
def Placed (missed : List Frequency) (reported : Frequency) (ramp : Ramp) : Prop :=
  ∃ base : Ramp, (base.current.absDiff reported).hz ≤ Ramp.tolerance.hz ∧
    base.Strayed missed ramp

theorem misses_voltageRequests (family : Family) (m : Manager) (w : World)
    (missed : List Frequency) :
    (m.voltageRequests family w).foldl Request.misses missed = missed := by
  unfold voltageRequests regulated
  split_ifs <;> rfl

variable {model : Model} {jobInterval : Option Nat}

/-- A look goes where it should, or strays further. -/
theorem placed_visit (hmodel : model ≠ .bm1397) {seen : List Visit} {m : Manager} {w : World}
    (h : Placed (missed seen) m.reached w.ramp) :
    Placed (missed (seen ++ [visit (.ofModel model jobInterval) m w]))
      (visit (.ofModel model jobInterval) m w).manager.reached
      (visit (.ofModel model jobInterval) m w).left.ramp := by
  let c := Controller.ofModel model jobInterval
  obtain ⟨moved, left, -, hvisit, hleaves⟩ := exists_visit c m w
  have hmissed : missed (seen ++ [visit c m w]) =
      (m.clockRequests w.settings moved).foldl Request.misses (missed seen) := by
    rw [missed_concat, hvisit, lookRequests, List.foldl_append, misses_voltageRequests]
  have hreached : (visit c m w).manager.reached =
      ((m.clockRequests w.settings moved).filterMap Request.reached?).getLastD m.reached := by
    rw [hvisit]
    exact reached_followed ..
  have hleft : (visit c m w).left = left := by rw [hvisit]
  obtain ⟨base, hbase, hstrayed⟩ := h
  change Placed (missed (seen ++ [visit c m w])) (visit c m w).manager.reached
    (visit c m w).left.ramp
  rw [hmissed, hreached, hleft, clockRequests]
  cases hleaves with
  | unmoved hsame journal volts =>
      rw [if_pos hsame]
      exact ⟨base, hbase, hstrayed⟩
  | moved hnew journal volts hrun =>
      have hmoved := Controller.run_setFrequency_along hmodel hrun
      rw [if_neg hnew]
      cases moved with
      | true => exact ⟨left.ramp, hmoved.arrived, .nowhere⟩
      | false => exact ⟨base, hbase, hstrayed.further hmoved⟩

/-- Over every history of a chain that rolls versions, and however the link behaves: since the last
call that succeeded the ramp has moved, from a kilohertz at most beside the frequency that the manager
reports, along the plans of the calls that have failed, and none of these to its end. -/
theorem reported_until_astray (hmodel : model ≠ .bm1397) (w : World) (incidents : List Incident) :
    ∀ before v after,
      visits (.ofModel model jobInterval) (.startingAt w.ramp.current) w incidents =
        before ++ v :: after →
      Placed (missed (before ++ [v])) v.manager.reached v.left.ramp ∧
      (missed (before ++ [v]) = [] →
        (v.left.ramp.current.absDiff v.manager.reached).hz ≤ 1000) := by
  intro before v after hsplit
  have hplaced : Placed (missed (before ++ [v])) v.manager.reached v.left.ramp := by
    have hstart : Placed (missed []) (startingAt w.ramp.current).reached w.ramp :=
      ⟨w.ramp, by simp [startingAt, Frequency.absDiff], .nowhere⟩
    obtain ⟨m, w', rfl, h⟩ := visits_split _
      (P := fun seen m w => Placed (missed seen) m.reached w.ramp)
      (fun incident _ _ _ _ _ h => by cases incident <;> exact h)
      (fun _ _ _ h => placed_visit hmodel h) [] hstart hsplit
    exact placed_visit hmodel h
  refine ⟨hplaced, fun hnone => ?_⟩
  obtain ⟨base, hbase, hstrayed⟩ := hplaced
  rw [hnone] at hstrayed
  rw [hstrayed.eq_of_nil]
  exact hbase

def tooSlow : List Incident :=
  [.write Store.Key.frequency (.number (.ofRatio 30 1)), .look]

/-- A chain that has been powered and is asked for thirty megahertz. -/
theorem reported_until_astray_of_refusal :
    Model.bm1366 ≠ .bm1397 ∧
      ∃ v, visits (.ofModel .bm1366 none) (.startingAt Ramp.bootFrequency) (World.fresh .bm1366)
          tooSlow = [v] ∧
        Placed (missed [v]) v.manager.reached v.left.ramp := by
  have hmodel : Model.bm1366 ≠ .bm1397 := by decide
  refine ⟨hmodel, _, rfl, ?_⟩
  exact (reported_until_astray hmodel (World.fresh .bm1366) tooSlow [] _ [] rfl).1

theorem lookup_tooSlow : Dividers.lookup ⟨37500000⟩ = none := by
  have hfaster : ∀ d ∈ Dividers.candidates, 37500000 < d.frequency.hz := by decide +kernel
  refine Option.not_isSome_iff_eq_none.1 fun hsome => ?_
  obtain ⟨d, hd, hwithin⟩ := Dividers.isSome_lookup_iff.1 hsome
  exact absurd hwithin (hfaster d (Dividers.mem_candidates_iff.2 hd)).not_ge

theorem movedAlong_tooSlow :
    let stops := Ramp.boot.plan ⟨30000000⟩
    Ramp.movedAlong .boot stops = { Ramp.boot with current := ⟨43750000⟩ } ∧
      Ramp.outcomeOf stops = .error (.noDividers ⟨37500000⟩) := by
  have hstops : Ramp.boot.plan ⟨30000000⟩ =
      [⟨50000000⟩, ⟨43750000⟩, ⟨37500000⟩, ⟨31250000⟩, ⟨30000000⟩] := by decide +kernel
  obtain ⟨first, hfirst⟩ := Option.isSome_iff_exists.1
    (Dividers.isSome_lookup_of_le (f := ⟨50000000⟩) (by decide))
  obtain ⟨second, hsecond⟩ := Option.isSome_iff_exists.1
    (Dividers.isSome_lookup_of_le (f := ⟨43750000⟩) (by decide))
  constructor
  · rw [hstops, Ramp.movedAlong_cons_of_some _ hfirst, Ramp.movedAlong_cons_of_some _ hsecond,
      Ramp.movedAlong_cons_of_none _ lookup_tooSlow]
  · rw [hstops, Ramp.outcomeOf_cons_of_some _ hfirst, Ramp.outcomeOf_cons_of_some _ hsecond,
      Ramp.outcomeOf_cons_of_none _ lookup_tooSlow]

/-- After a move that the divider table ends on the way, the manager is wrong by more than twelve
megahertz. -/
theorem ramp_astray :
    ∃ v, visits (.ofModel .bm1366 none) (.startingAt Ramp.bootFrequency) (World.fresh .bm1366)
        tooSlow = [v] ∧
      v.manager.reached = ⟨56250000⟩ ∧ v.left.ramp.current = ⟨43750000⟩ := by
  let c := Controller.ofModel .bm1366 none
  let m := startingAt Ramp.bootFrequency
  let w := (Incident.write Store.Key.frequency (.number (.ofRatio 30 1))).befall
    (World.fresh .bm1366)
  refine ⟨visit c m w, rfl, ?_⟩
  obtain ⟨moved, left, -, hvisit, hleaves⟩ := exists_visit c m w
  have hwanted : m.wantedFrequency w.settings = ⟨30000000⟩ := by decide +kernel
  obtain ⟨hramp, houtcome⟩ := movedAlong_tooSlow
  cases hleaves with
  | unmoved hsame =>
      rw [hwanted] at hsame
      exact absurd hsame (by decide)
  | moved hnew journal volts hrun =>
      rw [hwanted] at hrun
      obtain ⟨asking, telling, heq⟩ :=
        Controller.run_setFrequency_eq c ⟨30000000⟩ { w with journal, volts }
      have hclocks : Driver.Clocks Rolling.setClock Model.bm1366.clockWrites :=
        Rolling.setClock_emits (by decide)
      obtain ⟨after, hmove, -, hstand, -⟩ := Driver.moveClock_emits hclocks ⟨30000000⟩
        ⟨Ramp.boot, []⟩ ({ w with journal, volts }.record asking) rfl rfl
      rw [houtcome] at hmove
      rw [hramp] at hstand
      have hdriver : c.driver.setFrequency ⟨30000000⟩ =
          Driver.moveClock Rolling.setClock ⟨30000000⟩ := rfl
      rw [heq, hdriver, hmove] at hrun
      obtain ⟨hmoved, rfl⟩ := Prod.mk.inj hrun
      have hfailed : moved = false := (Except.ok.inj hmoved).symm
      constructor
      · rw [hvisit, hfailed]
        change (m.followed w.settings false).reached = _
        rw [followed, hwanted]
        rfl
      · rw [hvisit]
        exact congrArg (fun s : Stand => s.ramp.current) hstand

end Manager

end ChipChain
