import ChipChain.Proofs.Chain.Steering
import ChipChain.Proofs.Pll.Optimal
import Mathlib.Algebra.Order.Group.Abs

/-!
# How far the clock jumps

A ramp bounds the distance between the frequencies that are asked for. The chips run at
the settings found for them, each somewhat slower than what was asked for, so the clock
itself may jump further: by a third of the crystal, and no more
(`clock_jumps_bounded`).
-/

namespace ChipChain

open Routine Driver

/-! ## Reading words -/

namespace Rolling

def dividersOf (word : UInt32) : Dividers :=
  match Bytes.ofUInt32BE word with
  | [_, feedback, reference, post] =>
    ⟨feedback.toNat, reference.toNat, (post >>> 4).toNat + 1, (post &&& 15).toNat + 1⟩
  | _ => default

section

variable {d : Dividers}

theorem toNat_feedback (h : d.Legal) : (UInt8.ofNat d.feedback).toNat = d.feedback :=
  UInt8.toNat_ofNat_of_lt (Nat.lt_of_le_of_lt h.feedback_le (by decide))

theorem toNat_reference (h : d.Legal) : (UInt8.ofNat d.reference).toNat = d.reference := by
  rw [h.reference_eq]
  rfl

theorem toNat_nibbles : ∀ post1 ∈ List.range' 1 7, ∀ post2 ∈ List.range' 1 7,
    ((UInt8.ofNat (post1 - 1) <<< 4) ||| UInt8.ofNat (post2 - 1)).toNat =
      16 * (post1 - 1) + (post2 - 1) := by
  decide +kernel

theorem toNat_post (h : d.Legal) :
    ((UInt8.ofNat (d.post1 - 1) <<< 4) ||| UInt8.ofNat (d.post2 - 1)).toNat =
      16 * (d.post1 - 1) + (d.post2 - 1) := by
  have hpost2 := h.post2_pos
  have hpost := h.post2_le
  have hpost1 := h.post1_le
  refine toNat_nibbles d.post1 ?_ d.post2 ?_ <;> rw [List.mem_range'_1] <;> omega

theorem dividersOf_clockWord (h : d.Legal) : dividersOf (clockWord d) = d := by
  have hpost2 := h.post2_pos
  have hpost := h.post2_le
  have hpost1 := h.post1_le
  have hhigh : (16 * (d.post1 - 1) + (d.post2 - 1)) / 2 ^ 4 + 1 = d.post1 := by omega
  have hlow : (16 * (d.post1 - 1) + (d.post2 - 1)) % 2 ^ 4 + 1 = d.post2 := by omega
  have hmask : (15 : UInt8).toNat = 2 ^ 4 - 1 := rfl
  have hshift : (4 : UInt8).toNat % 8 = 4 := rfl
  rw [dividersOf, clockWord, Bytes.ofUInt32BE_toUInt32BE]
  dsimp only
  rw [UInt8.toNat_shiftRight, UInt8.toNat_and, toNat_post h, hmask, hshift,
    Nat.shiftRight_eq_div_pow, Nat.and_two_pow_sub_one_eq_mod, hhigh, hlow, toNat_feedback h,
    toNat_reference h]

end

end Rolling

/-! ## Settings of stops -/

namespace Dividers

/-- The exact output of the setting found for a frequency. -/
def reached (f : Frequency) : ℚ :=
  (lookup f).elim 0 output

theorem isSome_lookup_of_le {f : Frequency} (h : 40816327 ≤ f.hz) : (lookup f).isSome :=
  isSome_lookup_iff_lowest_le.2 (le_trans (by decide) h)

/-- The settings of stops that are a hop apart lie at most a third of the crystal apart. -/
theorem reached_near {f g : Frequency} (hf : (lookup f).isSome) (hg : (lookup g).isSome)
    (h : Ramp.Hop 6250000 f g) : |reached f - reached g| ≤ 25000000 / 3 := by
  obtain ⟨d, hd⟩ := Option.isSome_iff_exists.1 hf
  obtain ⟨e, he⟩ := Option.isSome_iff_exists.1 hg
  obtain ⟨hfg, hgf⟩ := Ramp.hop_iff.1 h
  have hle := output_le_of_lookup hd he hgf
  have hge := output_le_of_lookup he hd hfg
  rw [reached, reached, hd, he, Option.elim_some, Option.elim_some, abs_sub_le_iff]
  constructor <;> linarith

theorem reached_frequency {d : Dividers} (h : d.Legal) : reached d.frequency = d.output := by
  have hsome : (lookup d.frequency).isSome := isSome_lookup_iff.2 ⟨d, h, le_refl _⟩
  obtain ⟨e, he⟩ := Option.isSome_iff_exists.1 hsome
  rw [reached, he, Option.elim_some, output_of_lookup_frequency h he]

theorem reached_boot : reached Ramp.bootFrequency = 56250000 := by
  have hlegal : (⟨162, 2, 6, 6⟩ : Dividers).Legal := by decide
  have hboot : Ramp.bootFrequency = (⟨162, 2, 6, 6⟩ : Dividers).frequency := by decide
  rw [hboot, reached_frequency hlegal]
  norm_num [output, outputNumerator, crystalMhz, divisor]

end Dividers

/-! ## The bound -/

namespace Model

open Dividers

variable {model : Model}

theorem stopWords_of_rolling (hmodel : model ≠ .bm1397) {f : Frequency} {d : Dividers}
    (h : lookup f = some d) : model.stopWords f = [Rolling.clockWord d] := by
  rw [model.stopWords_of_lookup h]
  cases model with
  | bm1397 => exact absurd rfl hmodel
  | _ => rfl

/-- Where every setting is written once, the words are the settings of the stops. -/
theorem output_words (hmodel : model ≠ .bm1397) {stops : List Frequency}
    (hknown : ∀ f ∈ stops, (model.stopWord? f).isSome) :
    (stops.flatMap model.stopWords).map (fun word => (Rolling.dividersOf word).output) =
      stops.map reached := by
  induction stops with
  | nil => rfl
  | cons stop rest ih =>
      obtain ⟨hstop, hrest⟩ := List.forall_mem_cons.1 hknown
      rw [stopWord?, Option.isSome_map] at hstop
      obtain ⟨d, hd⟩ := Option.isSome_iff_exists.1 hstop
      have houtput : (Rolling.dividersOf (Rolling.clockWord d)).output = reached stop := by
        rw [Rolling.dividersOf_clockWord (lookup_eq_some_iff.1 hd).1, reached, hd, Option.elim_some]
      rw [List.flatMap_cons, stopWords_of_rolling hmodel hd, List.singleton_append, List.map_cons,
        List.map_cons, houtput, ih hrest]

/-- Whatever orders are given, and however the link behaves: the settings that are written to chips
that roll versions, counted from the one that they boot with, lie never more than a third of the
crystal apart. -/
theorem clock_jumps_bounded (hmodel : model ≠ .bm1397) (w : World) (incidents : List Incident) :
    List.IsChain (fun f g : ℚ => |f - g| ≤ 25000000 / 3)
      (56250000 :: (model.driver.serveAll (model.powered w) incidents).2.clockValues.map
        fun word => (Rolling.dividersOf word).output) := by
  have hstep : 0 < Ramp.boot.step.hz := by decide
  obtain ⟨c, hsteered, hwhole⟩ := serveAll_steers (w := model.powered w) hmodel hstep incidents
  have hnone : (model.powered w).clockValues = [] := rfl
  have hstops : c.stops = c.applied := by
    rw [Course.stops, hwhole, Option.toList_none, List.append_nil]
  have hwords : c.words model = c.applied.flatMap model.stopWords := by
    rw [Course.words, hwhole, Option.toList_none, List.filterMap_nil, List.append_nil]
  have hknown := hsteered.sound.known
  have hhops := hsteered.hops
  rw [hstops] at hknown hhops
  rw [hsteered.words, hnone, List.nil_append, hwords, output_words hmodel hknown, ← reached_boot,
    ← List.map_cons, List.isChain_map]
  have hfound : ∀ f ∈ Ramp.bootFrequency :: c.applied, (lookup f).isSome := by
    refine List.forall_mem_cons.2 ⟨isSome_lookup_of_le (by decide), fun f hf => ?_⟩
    have hword := hknown f hf
    rwa [stopWord?, Option.isSome_map] at hword
  exact hhops.imp_of_mem_imp fun f g hf hg hop => reached_near (hfound f hf) (hfound g hg) hop

/-- A history on a link that fails now and then. -/
theorem clock_jumps_bounded_after_failure :
    bm1370 ≠ .bm1397 ∧ List.IsChain (fun f g : ℚ => |f - g| ≤ 25000000 / 3)
      (56250000 :: (bm1370.driver.serveAll (bm1370.powered (World.fresh .bm1370))
        [.rearrange [] (some (2, .disconnected)) none none, .setFrequency (.ofKhz 600000),
          .setFrequency (.ofKhz 50000)]).2.clockValues.map
        fun word => (Rolling.dividersOf word).output) :=
  ⟨by decide, clock_jumps_bounded (by decide) _ _⟩

/-! ## The bound is met -/

theorem clockValues_settings (hmodel : model ≠ .bm1397) {stops : List Frequency}
    (hknown : ∀ f ∈ stops, (lookup f).isSome) :
    (((Ramp.settings stops).flatMap model.clockWrites).map Command.frame).filterMap clockValue? =
      stops.flatMap model.stopWords := by
  have hwrites := clockWrites_of_rolling hmodel
  have hfits : ∀ c ∈ (Ramp.settings stops).flatMap model.clockWrites, c.Fits := by
    intro c hc
    obtain ⟨d, -, hc⟩ := List.mem_flatMap.1 hc
    rw [hwrites, List.mem_singleton] at hc
    subst hc
    trivial
  rw [filterMap_clockValue? hfits]
  clear hfits
  induction stops with
  | nil => rfl
  | cons stop rest ih =>
      obtain ⟨hstop, hrest⟩ := List.forall_mem_cons.1 hknown
      obtain ⟨d, hd⟩ := Option.isSome_iff_exists.1 hstop
      rw [Ramp.settings_cons_of_some rest hd, List.flatMap_cons, List.filterMap_append, ih hrest,
        List.flatMap_cons, stopWords_of_rolling hmodel hd, hwrites]
      rfl

theorem serveAll_setFrequency (hmodel : model ≠ .bm1397) {w : World}
    (hsends : w.line.sendFault = none) {target : Frequency}
    (hknown : ∀ f ∈ w.ramp.plan target, (lookup f).isSome) :
    (model.driver.serveAll w [.setFrequency target]).2.clockValues =
      w.clockValues ++ (w.ramp.plan target).flatMap model.stopWords := by
  obtain ⟨after, hrun, -, -, hframes⟩ :=
    moveClock_emits (Rolling.setClock_emits hmodel) target w.stand w hsends rfl
  rw [← setFrequency_of_rolling hmodel] at hrun
  have hafter : (model.driver.serveAll w [.setFrequency target]).2 = after :=
    congrArg Prod.snd hrun
  rw [hafter, World.clockValues_of_frames_append hframes]
  exact congrArg _ (clockValues_settings hmodel hknown)

theorem reached_beforeLast : reached ⟨756250000⟩ = 25000000 * 181 / 6 := by
  have hlookup : lookup ⟨756250000⟩ = some ⟨181, 2, 3, 1⟩ :=
    lookup_of_best (by decide) (by decide) (by decide +kernel)
  rw [reached, hlookup, Option.elim_some]
  norm_num [output, outputNumerator, crystalMhz, divisor]

theorem reached_last : reached ⟨762500000⟩ = 762500000 := by
  have hlegal : (⟨183, 2, 3, 1⟩ : Dividers).Legal := by decide
  have hown : (⟨762500000⟩ : Frequency) = (⟨183, 2, 3, 1⟩ : Dividers).frequency := by decide
  rw [hown, reached_frequency hlegal]
  norm_num [output, outputNumerator, crystalMhz, divisor]

/-- A climb whose last two settings lie a third of the crystal apart, although its stops lie a
quarter apart. -/
theorem clock_jumps :
    let values := (bm1366.driver.serveAll (bm1366.powered (World.fresh .bm1366))
      [.setFrequency ⟨762500000⟩]).2.clockValues.map fun word => (Rolling.dividersOf word).output
    (∃ before first second, values = before ++ [first, second] ∧ second - first = 25000000 / 3) ∧
      ¬ List.IsChain (fun f g : ℚ => |f - g| ≤ 6250000) (56250000 :: values) := by
  intro values
  let stops := Ramp.boot.plan ⟨762500000⟩
  have hmodel : bm1366 ≠ .bm1397 := by decide
  have hknown : ∀ f ∈ stops, (lookup f).isSome := by
    have hlow : ∀ f ∈ stops, 40816327 ≤ f.hz := by decide +kernel
    exact fun f hf => isSome_lookup_of_le (hlow f hf)
  have hvalues : values = stops.map reached := by
    have hset : ∀ f ∈ stops, (bm1366.stopWord? f).isSome := fun f hf => by
      rw [stopWord?, Option.isSome_map]
      exact hknown f hf
    have hwords :=
      serveAll_setFrequency (w := bm1366.powered (World.fresh .bm1366)) hmodel rfl hknown
    rw [← output_words hmodel hset]
    exact congrArg (List.map _) hwords
  have hlast : stops = stops.take 111 ++ [⟨756250000⟩, ⟨762500000⟩] := by
    have hdrop : stops.drop 111 = [⟨756250000⟩, ⟨762500000⟩] := by decide +kernel
    rw [← hdrop, List.take_append_drop]
  have hsplit : values = (stops.take 111).map reached ++ [25000000 * 181 / 6, 762500000] := by
    rw [hvalues, ← reached_beforeLast, ← reached_last]
    exact (congrArg (List.map reached) hlast).trans List.map_append
  rw [hsplit]
  refine ⟨⟨_, _, _, rfl, by norm_num⟩, fun hchain => ?_⟩
  rw [← List.cons_append] at hchain
  have hjump := List.isChain_pair.1 hchain.right_of_append
  norm_num [abs_le] at hjump

end Model

end ChipChain
