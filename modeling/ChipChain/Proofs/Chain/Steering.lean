import ChipChain.Proofs.Chain.Clocking
import ChipChain.Proofs.Ramp.Walk

/-!
# Steering the clock

What the words on the wire say about the clock, and what the driver's ramp says about
it. However the link behaves, an order takes both along a course: stops of the ramp that
were applied, each a hop from the one before, and at most one more, of which a part was
written when the link failed (`serve_steers`).
-/

namespace ChipChain

open Routine

/-! ## Words for the clock -/

def Command.clockWord? : Command → Option UInt32
  | .writeRegister _ _ register word =>
    if register = Register.pll0Parameter then some word else none
  | _ => none

/-- The word that a frame writes to the clock. -/
def clockValue? (frame : Bytes) : Option UInt32 :=
  (Command.read? frame).bind fun (c, _) => c.clockWord?

theorem clockValue?_frame {c : Command} (h : c.Fits) : clockValue? c.frame = c.clockWord? := by
  have hread := Command.read?_frame_append h []
  rw [List.append_nil] at hread
  rw [clockValue?, hread]
  rfl

theorem filterMap_clockValue? {commands : List Command} (h : ∀ c ∈ commands, c.Fits) :
    (commands.map Command.frame).filterMap clockValue? = commands.filterMap Command.clockWord? := by
  rw [List.filterMap_map]
  exact List.filterMap_congr fun c hc => clockValue?_frame (h c hc)

theorem Command.Setup.clockWord? {c : Command} (h : c.Setup) : c.clockWord? = none := by
  cases c with
  | writeRegister broadcast chip register word => exact if_neg h
  | _ => rfl

/-- All words that have been written to the clock, in order. -/
def World.clockValues (w : World) : List UInt32 :=
  w.frames.filterMap clockValue?

theorem World.clockValues_of_frames_append {w w' : World} {sent : List Bytes}
    (h : w'.frames = w.frames ++ sent) :
    w'.clockValues = w.clockValues ++ sent.filterMap clockValue? := by
  rw [clockValues, h, List.filterMap_append]
  rfl

theorem World.clockValues_of_frames_eq {w w' : World} (h : w'.frames = w.frames) :
    w'.clockValues = w.clockValues := by
  rw [clockValues, h]
  rfl

namespace Bus

theorem ramp_send (c : Command) (w : World) : ((send c).run w).2.ramp = w.ramp := by
  obtain ⟨journal, hrun⟩ := run_send c w
  rw [hrun]
  cases c.oversized? <;> rfl

theorem clockValues_send (c : Command) (w : World) :
    ((send c).run w).2.clockValues =
      w.clockValues ++ if ((send c).run w).1.isOk then c.clockWord?.toList else [] := by
  rw [World.clockValues_of_frames_append (frames_send c w)]
  by_cases hfits : c.Fits
  case pos =>
    split
    · rw [List.filterMap_cons, List.filterMap_nil, clockValue?_frame hfits]
      cases c.clockWord? <;> rfl
    · rfl
  case neg =>
    obtain ⟨payload, rfl, hlong⟩ := Command.not_fits_iff.1 hfits
    obtain ⟨journal, hrun⟩ := run_send (.job payload) w
    rw [Command.oversized?, if_pos hlong] at hrun
    rw [hrun]
    rfl

theorem link_of_send_error {c : Command} (h : c.Fits) {w : World} {e : ChainError}
    (herror : ((send c).run w).1 = .error e) : ∃ fault, e = .link fault := by
  obtain ⟨journal, hrun⟩ := run_send c w
  rw [Command.oversized?_of_fits h] at hrun
  rw [hrun] at herror
  dsimp only at herror
  cases hanswer : (w.line.transmit w.clock c.frame).1 with
  | ok _ =>
      rw [hanswer] at herror
      cases herror
  | error fault =>
      rw [hanswer] at herror
      exact ⟨fault, (Except.error.inj herror).symm⟩

end Bus

/-! ## Writing words -/

namespace Routine

/-- Whatever the link does, the routine leaves the ramp alone. It writes all these words, or the
link fails when it has written one of these parts of them. -/
def Writes (p : Routine ChainError Unit) (words : List UInt32) (parts : List (List UInt32)) :
    Prop :=
  ∀ w : World, (p.run w).2.ramp = w.ramp ∧
    match (p.run w).1 with
    | .ok _ => (p.run w).2.clockValues = w.clockValues ++ words
    | .error e =>
      (∃ fault, e = .link fault) ∧
        ∃ part ∈ parts, (p.run w).2.clockValues = w.clockValues ++ part

namespace Writes

variable {p q : Routine ChainError Unit} {words words' : List UInt32}
  {parts parts' : List (List UInt32)}

theorem bind (hp : p.Writes words parts) (hq : q.Writes words' parts') :
    (p >>= fun _ => q).Writes (words ++ words') (parts ++ parts'.map (words ++ ·)) := by
  intro w
  obtain ⟨hramp, hvalues⟩ := hp w
  rw [run_bind]
  cases hrun : p.run w with
  | mk outcome between =>
      rw [hrun] at hramp hvalues
      cases outcome with
      | error e =>
          obtain ⟨hlink, part, hpart, hvalues⟩ := hvalues
          exact ⟨hramp, hlink, part, List.mem_append_left _ hpart, hvalues⟩
      | ok _ =>
          obtain ⟨hramp', hvalues'⟩ := hq between
          refine ⟨hramp'.trans hramp, ?_⟩
          dsimp only at hvalues ⊢
          cases houtcome : (q.run between).1 with
          | ok _ =>
              rw [houtcome] at hvalues'
              dsimp only at hvalues' ⊢
              rw [hvalues', hvalues, List.append_assoc]
          | error e =>
              rw [houtcome] at hvalues'
              obtain ⟨hlink, part, hpart, hvalues'⟩ := hvalues'
              refine ⟨hlink, words ++ part, List.mem_append_right _ (List.mem_map_of_mem hpart), ?_⟩
              rw [hvalues', hvalues, List.append_assoc]

theorem silent (h : ∀ w : World, (p.run w).1 = .ok () ∧ (p.run w).2.ramp = w.ramp ∧
    (p.run w).2.clockValues = w.clockValues) : p.Writes [] [] := by
  intro w
  obtain ⟨houtcome, hramp, hvalues⟩ := h w
  rw [houtcome]
  exact ⟨hramp, hvalues.trans (List.append_nil _).symm⟩

theorem send {c : Command} (h : c.Fits) : (Bus.send c).Writes c.clockWord?.toList [[]] := by
  intro w
  have hvalues := Bus.clockValues_send c w
  refine ⟨Bus.ramp_send c w, ?_⟩
  cases houtcome : ((Bus.send c).run w).1 with
  | ok _ =>
      rw [houtcome] at hvalues
      exact hvalues
  | error e =>
      rw [houtcome] at hvalues
      exact ⟨Bus.link_of_send_error h houtcome, [], List.mem_singleton_self _, hvalues⟩

theorem twice (h : p.Writes words parts) :
    (times 2 p).Writes (words ++ words) (parts ++ parts.map (words ++ ·)) := by
  have hdone : (done () : Routine ChainError Unit).Writes [] [] :=
    silent fun _ => ⟨rfl, rfl, rfl⟩
  have htwo := bind h (bind h hdone)
  rwa [List.map_nil, List.append_nil, List.append_nil] at htwo

end Writes

end Routine

/-! ## Setting the clock -/

namespace Model

/-- How often a setting is written. -/
def clockCopies : Model → Nat
  | .bm1397 => 2
  | _ => 1

/-- The word for the setting of a frequency. -/
def stopWord? (model : Model) (f : Frequency) : Option UInt32 :=
  (Dividers.lookup f).map model.clockWord

/-- The words that applying a frequency writes. -/
def stopWords (model : Model) (f : Frequency) : List UInt32 :=
  (model.stopWord? f).toList.flatMap (List.replicate model.clockCopies)

end Model

theorem Rolling.setClock_writes {f : Frequency} {d : Dividers} (h : Dividers.lookup f = some d) :
    (setClock f).Writes [clockWord d] [[]] := by
  rw [setClock, h]
  exact Writes.bind (Writes.send (c := .writeAll Register.pll0Parameter (clockWord d)) trivial)
    (Writes.silent fun _ => ⟨rfl, rfl, rfl⟩)

theorem Midstate.setClock_writes {f : Frequency} {d : Dividers} (h : Dividers.lookup f = some d) :
    (setClock f).Writes [clockWord d, clockWord d] [[], [], [], [clockWord d]] := by
  have hsend (register : UInt8) (word : UInt32) : (do
      pause clockRest
      Bus.writeAll register word : Routine ChainError Unit).Writes
        (Command.writeAll register word).clockWord?.toList [[]] :=
    Writes.bind (Writes.silent fun _ => ⟨rfl, rfl, rfl⟩)
      (Writes.send (c := .writeAll register word) trivial)
  rw [setClock, h]
  exact Writes.bind (Writes.twice (hsend Register.pll0Divider _)) <|
    Writes.bind (Writes.twice (hsend Register.pll0Parameter _)) <|
      Writes.silent fun _ => ⟨rfl, rfl, rfl⟩

/-- What came of applying a frequency, and which words it has written. -/
inductive Model.Attempted (model : Model) (f : Frequency) (w w' : World) :
    Except ChainError Unit → Prop
  | applied (hset : (model.stopWord? f).isSome)
      (hvalues : w'.clockValues = w.clockValues ++ model.stopWords f) :
      Attempted model f w w' (.ok ())
  | refused (e : ChainError) (hvalues : w'.clockValues = w.clockValues) :
      Attempted model f w w' (.error e)
  | torn (fault : LinkError) (word : UInt32) (hmodel : model = .bm1397)
      (hword : model.stopWord? f = some word)
      (hvalues : w'.clockValues = w.clockValues ++ [word]) :
      Attempted model f w w' (.error (.link fault))

namespace Model

theorem stopWords_of_lookup (model : Model) {f : Frequency} {d : Dividers}
    (h : Dividers.lookup f = some d) :
    model.stopWords f = List.replicate model.clockCopies (model.clockWord d) := by
  simp [stopWords, stopWord?, h]

theorem setClock_of_lookup_none (model : Model) {f : Frequency} (h : Dividers.lookup f = none) :
    model.setClock f = fail (.noDividers f) := by
  cases model with
  | bm1397 => rw [setClock, Midstate.setClock, h]
  | _ =>
      change Rolling.setClock f = _
      rw [Rolling.setClock, h]

/-- A part of a setting is written only where settings are written twice. -/
theorem setClock_writes (model : Model) {f : Frequency} {d : Dividers}
    (h : Dividers.lookup f = some d) :
    ∃ parts, (model.setClock f).Writes (model.stopWords f) parts ∧
      ∀ part ∈ parts, part = [] ∨ model = .bm1397 ∧ part = [model.clockWord d] := by
  rw [model.stopWords_of_lookup h]
  cases model with
  | bm1397 => exact ⟨_, Midstate.setClock_writes h, by simp [clockWord]⟩
  | _ => exact ⟨_, Rolling.setClock_writes h, by simp⟩

theorem run_setClock (model : Model) (f : Frequency) (w : World) :
    ((model.setClock f).run w).2.ramp = w.ramp ∧
      model.Attempted f w ((model.setClock f).run w).2 ((model.setClock f).run w).1 := by
  cases hlookup : Dividers.lookup f with
  | none =>
      rw [model.setClock_of_lookup_none hlookup]
      exact ⟨rfl, .refused _ rfl⟩
  | some d =>
      have hword : model.stopWord? f = some (model.clockWord d) := by
        rw [stopWord?, hlookup, Option.map_some]
      obtain ⟨parts, hwrites, hparts⟩ := model.setClock_writes hlookup
      obtain ⟨hramp, hvalues⟩ := hwrites w
      refine ⟨hramp, ?_⟩
      cases houtcome : ((model.setClock f).run w).1 with
      | ok _ =>
          rw [houtcome] at hvalues
          exact .applied (by rw [hword]; rfl) hvalues
      | error e =>
          rw [houtcome] at hvalues
          obtain ⟨⟨fault, rfl⟩, part, hpart, hvalues⟩ := hvalues
          rcases hparts part hpart with rfl | ⟨hmodel, rfl⟩
          · exact .refused _ (hvalues.trans (List.append_nil _))
          · exact .torn fault _ hmodel hword hvalues

end Model

/-! ## Courses -/

/-- Stops that were applied, and the one after them of which only a part was written. -/
structure Course where
  applied : List Frequency
  torn : Option Frequency

namespace Course

def stops (c : Course) : List Frequency :=
  c.applied ++ c.torn.toList

def words (model : Model) (c : Course) : List UInt32 :=
  c.applied.flatMap model.stopWords ++ c.torn.toList.filterMap model.stopWord?

/-- All stops have settings, and only where settings are written twice can one be half written. -/
structure Sound (model : Model) (c : Course) : Prop where
  known : ∀ f ∈ c.stops, (model.stopWord? f).isSome
  whole : c.torn.isSome → model = .bm1397

def nowhere : Course :=
  ⟨[], none⟩

theorem nowhere_sound (model : Model) : nowhere.Sound model :=
  ⟨nofun, nofun⟩

end Course

/-- Along these stops the clock was taken on a course. -/
structure Model.Followed (model : Model) (ramp : Ramp) (stops : List Frequency) (w w' : World)
    (moved : Ramp) (outcome : Except ChainError Unit) (c : Course) : Prop where
  ahead : c.stops <+: stops
  sound : c.Sound model
  words : w'.clockValues = w.clockValues ++ c.words model
  moved : moved = { ramp with current := c.applied.getLastD ramp.current }
  kept : w'.ramp = w.ramp
  torn : c.torn.isSome → ∃ fault, outcome = .error (.link fault)

namespace Model.Followed

variable {model : Model} {ramp moved : Ramp} {stop : Frequency} {rest : List Frequency}
  {w w' w'' : World} {outcome : Except ChainError Unit} {c : Course}

theorem nowhere (stops : List Frequency) (hkept : w'.ramp = w.ramp)
    (hwords : w'.clockValues = w.clockValues) :
    model.Followed ramp stops w w' ramp outcome .nowhere where
  ahead := List.nil_prefix
  sound := Course.nowhere_sound model
  words := hwords.trans (List.append_nil _).symm
  moved := rfl
  kept := hkept
  torn := nofun

theorem onward (hset : (model.stopWord? stop).isSome) (hkept : w'.ramp = w.ramp)
    (hwords : w'.clockValues = w.clockValues ++ model.stopWords stop)
    (h : model.Followed { ramp with current := stop } rest w' w'' moved outcome c) :
    model.Followed ramp (stop :: rest) w w'' moved outcome ⟨stop :: c.applied, c.torn⟩ where
  ahead := List.cons_prefix_cons.2 ⟨rfl, h.ahead⟩
  sound := ⟨List.forall_mem_cons.2 ⟨hset, h.sound.known⟩, h.sound.whole⟩
  words := by
    rw [h.words, hwords, Course.words, Course.words, List.flatMap_cons, List.append_assoc,
      List.append_assoc]
  moved := by rw [h.moved, List.getLastD_cons]
  kept := h.kept.trans hkept
  torn := h.torn

theorem cutShort {fault : LinkError} {word : UInt32} (hmodel : model = .bm1397)
    (hword : model.stopWord? stop = some word) (hkept : w'.ramp = w.ramp)
    (hwords : w'.clockValues = w.clockValues ++ [word]) :
    model.Followed ramp (stop :: rest) w w' ramp (.error (.link fault)) ⟨[], some stop⟩ where
  ahead := List.cons_prefix_cons.2 ⟨rfl, List.nil_prefix⟩
  sound := by
    refine ⟨fun f hf => ?_, fun _ => hmodel⟩
    rw [List.mem_singleton.1 hf, hword]
    rfl
  words := by
    rw [hwords, Course.words]
    simp [hword]
  moved := rfl
  kept := hkept
  torn := fun _ => ⟨fault, rfl⟩

end Model.Followed

namespace Driver

variable (model : Model)

theorem run_follow (ramp : Ramp) (stops : List Frequency) (w : World) :
    ∃ moved outcome w' c,
      (Ramp.follow (surroundings model.setClock) ramp stops).run w = (.ok (moved, outcome), w') ∧
        model.Followed ramp stops w w' moved outcome c := by
  induction stops generalizing ramp w with
  | nil => exact ⟨ramp, .ok (), w, .nowhere, rfl, .nowhere [] rfl rfl⟩
  | cons stop rest ih =>
      obtain ⟨hkept, hattempt⟩ := model.run_setClock stop w
      have happly : (surroundings model.setClock).apply stop = (model.setClock stop).attempt := rfl
      rw [Ramp.follow, Routine.run_bind, happly, run_attempt]
      generalize (model.setClock stop).run w = result at hkept hattempt
      obtain ⟨outcome, w₁⟩ := result
      dsimp only at hkept hattempt ⊢
      cases hattempt with
      | refused e hwords => exact ⟨ramp, .error e, w₁, .nowhere, rfl, .nowhere _ hkept hwords⟩
      | torn fault word hmodel hword hwords =>
          exact ⟨ramp, .error (.link fault), w₁, _, rfl, .cutShort hmodel hword hkept hwords⟩
      | applied hset hwords =>
          let moved : Ramp := { ramp with current := stop }
          cases rest with
          | nil =>
              exact ⟨moved, .ok (), _, _, rfl, .onward hset hkept hwords (.nowhere [] rfl rfl)⟩
          | cons next rest =>
              let w₂ := (w₁.record (Ramp.applied stop)).after ramp.settle
              have hkept₂ : w₂.ramp = w.ramp := hkept
              have hwords₂ : w₂.clockValues = w.clockValues ++ model.stopWords stop := hwords
              obtain ⟨moved, outcome, w', c, hrun, hfollowed⟩ := ih moved w₂
              exact ⟨moved, outcome, w', _, hrun, .onward hset hkept₂ hwords₂ hfollowed⟩

theorem run_transition (ramp : Ramp) (target : Frequency) (w : World) :
    ∃ moved outcome w' c,
      (Ramp.transition (surroundings model.setClock) ramp target).run w =
          (.ok (moved, outcome), w') ∧
        model.Followed ramp (ramp.plan target) w w' moved outcome c := by
  unfold Ramp.transition
  dsimp only
  generalize ramp.plan target = stops
  split
  case isTrue => exact ⟨ramp, .ok (), _, .nowhere, rfl, .nowhere _ rfl rfl⟩
  case isFalse =>
    have hstart : (surroundings model.setClock).note
        (Ramp.beginning ramp.current target stops.length) = Routine.note _ := rfl
    obtain ⟨moved, outcome, w', c, hrun, h⟩ := run_follow model ramp stops
      { w with journal := w.journal.push (Ramp.beginning ramp.current target stops.length) }
    rw [hstart, run_note_bind, run_bind, hrun]
    -- Reports change neither the words on the wire nor the ramp.
    cases outcome with
    | error e =>
        exact ⟨moved, .error e, w', c, rfl, h.ahead, h.sound, h.words, h.moved, h.kept, h.torn⟩
    | ok _ =>
        exact ⟨moved, .ok (), w'.record (Ramp.complete moved.current), c, rfl, h.ahead, h.sound,
          h.words, h.moved, h.kept, h.torn⟩

end Driver

/-! ## What orders do -/

/-- From one world to the other, words and ramp have followed a course, hop by hop. -/
structure Model.Steered (model : Model) (w w' : World) (c : Course) : Prop where
  sound : c.Sound model
  hops : List.IsChain (Ramp.Hop w.ramp.step.hz) (w.ramp.current :: c.stops)
  words : w'.clockValues = w.clockValues ++ c.words model
  ramp : w'.ramp = { w.ramp with current := c.applied.getLastD w.ramp.current }

namespace Model.Steered

variable {model : Model} {w w' w'' : World} {c c' : Course}

theorem nowhere (hramp : w'.ramp = w.ramp) (hwords : w'.clockValues = w.clockValues) :
    model.Steered w w' .nowhere where
  sound := Course.nowhere_sound model
  hops := List.isChain_singleton _
  words := hwords.trans (List.append_nil _).symm
  ramp := hramp

theorem step (h : model.Steered w w' c) : w'.ramp.step = w.ramp.step := by
  rw [h.ramp]

theorem trans (h : model.Steered w w' c) (hwhole : c.torn = none) (h' : model.Steered w' w'' c') :
    model.Steered w w'' ⟨c.applied ++ c'.applied, c'.torn⟩ := by
  obtain ⟨applied, torn⟩ := c
  subst hwhole
  have hcurrent : w'.ramp.current = applied.getLastD w.ramp.current := by rw [h.ramp]
  have hstops : applied ++ [] = applied := List.append_nil applied
  refine ⟨⟨?_, h'.sound.whole⟩, ?_, ?_, ?_⟩
  · intro f hf
    rw [Course.stops, List.append_assoc, List.mem_append] at hf
    exact hf.elim (fun hf => h.sound.known f (List.mem_append_left _ hf)) (h'.sound.known f)
  · have hhops := h.hops
    have hhops' := h'.hops
    rw [h.step, hcurrent] at hhops'
    rw [Course.stops, Option.toList_none, List.append_nil] at hhops
    rw [Course.stops, List.append_assoc]
    exact Ramp.isChain_append_of_getLastD hhops hhops'
  · rw [h'.words, h.words]
    simp [Course.words]
  · rw [h'.ramp, h.ramp, Ramp.getLastD_append]

end Model.Steered

/-- Whatever the link does, the routine steers the clock along a course, and it fails if a stop was
half written. -/
def Routine.Steers {α : Type} (model : Model) (p : Routine ChainError α) : Prop :=
  ∀ w : World, 0 < w.ramp.step.hz → ∃ c, model.Steered w (p.run w).2 c ∧
    (c.torn.isSome → ∃ fault, (p.run w).1 = .error (.link fault))

namespace Routine.Steers

variable {α β : Type} {model : Model}

theorem nowhere {p : Routine ChainError α} (h : ∀ w : World,
    (p.run w).2.ramp = w.ramp ∧ (p.run w).2.clockValues = w.clockValues) : p.Steers model :=
  fun w _ => ⟨.nowhere, .nowhere (h w).1 (h w).2, nofun⟩

theorem bind {p : Routine ChainError α} {f : α → Routine ChainError β} (hp : p.Steers model)
    (hf : ∀ value, (f value).Steers model) : (p >>= f).Steers model := by
  intro w hstep
  obtain ⟨c, hsteered, htorn⟩ := hp w hstep
  rw [run_bind]
  cases hrun : p.run w with
  | mk outcome between =>
      rw [hrun] at hsteered htorn
      cases outcome with
      | error e =>
          refine ⟨c, hsteered, fun h => ?_⟩
          obtain ⟨fault, hfault⟩ := htorn h
          exact ⟨fault, congrArg Except.error (Except.error.inj hfault)⟩
      | ok value =>
          have hwhole : c.torn = none := by
            cases h : c.torn with
            | none => rfl
            | some f =>
                obtain ⟨fault, hfault⟩ := htorn (by rw [h]; rfl)
                cases hfault
          have hstep' : 0 < between.ramp.step.hz := by rwa [hsteered.step]
          obtain ⟨c', hsteered', htorn'⟩ := hf value between hstep'
          exact ⟨_, hsteered.trans hwhole hsteered', htorn'⟩

end Routine.Steers

namespace Driver

theorem moveClock_steers (model : Model) (target : Frequency) :
    (moveClock model.setClock target).Steers model := by
  intro w hstep
  obtain ⟨moved, outcome, w', c, hrun, h⟩ := run_transition model w.ramp target w
  have hmove : (moveClock model.setClock target).run w =
      (outcome, { w' with ramp := moved }) := by
    have hread : (moveClock model.setClock target).run w =
        (Ramp.transition (surroundings model.setClock) w.ramp target >>= fun result => do
          storeRamp result.1
          ofExcept result.2).run w := rfl
    rw [hread, run_bind, hrun]
    cases outcome <;> rfl
  rw [hmove]
  refine ⟨c, ⟨h.sound, ?_, h.words, ?_⟩, h.torn⟩
  · exact List.IsChain.prefix (Ramp.plan_hops w.ramp target hstep)
      (List.cons_prefix_cons.2 ⟨rfl, h.ahead⟩)
  · exact h.moved

end Driver

theorem World.ramp_perform {action : Action} (h : ∀ ramp, action ≠ .storeRamp ramp) (w : World) :
    (w.perform action).2.2.ramp = w.ramp := by
  cases action with
  | storeRamp ramp => exact absurd rfl (h ramp)
  | regulate volts =>
      obtain ⟨_, hperform⟩ := w.perform_regulate volts
      rw [hperform]
  | deliver found =>
      obtain ⟨_, hperform⟩ := w.perform_deliver found
      rw [hperform]
  | _ => rfl

namespace Routine.Steers

variable {model : Model}

theorem perform {action : Action} (hquiet : ∀ frame, action ≠ .transmit frame)
    (hkept : ∀ ramp, action ≠ .storeRamp ramp) :
    (Routine.perform action : Routine ChainError action.Answer).Steers model :=
  nowhere fun w =>
    ⟨World.ramp_perform hkept w, World.clockValues_of_frames_eq (World.frames_perform hquiet w)⟩

theorem send {c : Command} (h : c.clockWord? = none) : (Bus.send c).Steers model := by
  refine nowhere fun w => ⟨Bus.ramp_send c w, ?_⟩
  rw [Bus.clockValues_send, h]
  split <;> exact List.append_nil _

end Routine.Steers

namespace Model

theorem upkeep_steers {α : Type} (model : Model) {p : Routine ChainError α}
    (h : p.Upkeep model.setClock) : p.Steers model := by
  induction h with
  | part hpart =>
      cases hpart with
      | perform action hidle => exact Steers.perform hidle.quiet hidle.keepsRamp
      | send c hsetup => exact Steers.send hsetup.clockWord?
      | moveClock target => exact Driver.moveClock_steers model target
  | done value => exact Steers.nowhere fun _ => ⟨rfl, rfl⟩
  | fail error => exact Steers.nowhere fun _ => ⟨rfl, rfl⟩
  | bind _ _ ihp ihf => exact Steers.bind ihp ihf

theorem sendWork_steers (model : Model) (job : Job) : (model.driver.sendWork job).Steers model := by
  have hdraw : (drawId : Routine ChainError UInt8).Steers model := Steers.perform nofun nofun
  have hinstall (id : UInt8) : (install id job : Routine ChainError Unit).Steers model :=
    Steers.perform nofun nofun
  have hnote (entry : Entry) : (note entry : Routine ChainError Unit).Steers model :=
    Steers.perform nofun nofun
  obtain ⟨source, hsendWork⟩ := model.sendWork_eq
  rw [hsendWork]
  exact Steers.bind hdraw fun id => Steers.bind (hinstall id) fun _ =>
    Steers.bind (hnote _) fun _ => Steers.bind (Steers.send rfl) fun _ =>
      Steers.nowhere fun _ => ⟨rfl, rfl⟩

theorem frames_read (model : Model) (w : World) : (model.read w).frames = w.frames := by
  change (Bus.lineAfter model.family.resultLength w.line).frames = w.line.frames
  unfold Bus.lineAfter Line.flush
  split
  · split <;> rfl
  · rfl

theorem still_of_not_order (model : Model) {incident : Driver.Incident} (h : ¬ incident.isOrder)
    (w : World) : (model.driver.serve w incident).2.ramp = w.ramp ∧
      (model.driver.serve w incident).2.frames = w.frames := by
  cases incident with
  | readShare =>
      obtain ⟨journal, hrun⟩ := model.run_readShare w
      rw [Driver.serve, hrun]
      exact ⟨rfl, model.frames_read w⟩
  | invalidate => exact ⟨rfl, rfl⟩
  | invalidateAll => exact ⟨rfl, rfl⟩
  | rearrange => exact ⟨rfl, rfl⟩
  | _ => exact absurd rfl h

/-- Whatever happens to a driver and its link, words and ramp follow a course. Only a call that
fails on the link leaves a stop half written. -/
theorem serve_steers (model : Model) {w : World} (hstep : 0 < w.ramp.step.hz)
    (incident : Driver.Incident) :
    ∃ c, model.Steered w (model.driver.serve w incident).2 c ∧
      (c.torn.isSome →
        ∃ fault, (model.driver.serve w incident).1.error? = some (.link fault)) := by
  by_cases horder : incident.isOrder
  case pos =>
    obtain ⟨α, p, tell, hp, hruns⟩ := runs_order model.upkeep_steers model.sendWork_steers horder
    obtain ⟨c, hsteered, htorn⟩ := hp w hstep
    rw [hruns.serve]
    refine ⟨c, hsteered, fun h => ?_⟩
    obtain ⟨fault, hfault⟩ := htorn h
    exact ⟨fault, by rw [hfault, hruns.error]⟩
  case neg =>
    obtain ⟨hramp, hframes⟩ := model.still_of_not_order horder w
    exact ⟨.nowhere, .nowhere hramp (World.clockValues_of_frames_eq hframes), nofun⟩

/-- The world in which chips and driver have just been powered. -/
def powered (model : Model) (w : World) : World :=
  { model.anew w with ramp := .boot, line := { w.line with sent := #[] } }

/-- Where every setting is written once, a whole history follows one course. -/
theorem serveAll_steers {model : Model} (hmodel : model ≠ .bm1397) {w : World}
    (hstep : 0 < w.ramp.step.hz) (incidents : List Driver.Incident) :
    ∃ c, model.Steered w (model.driver.serveAll w incidents).2 c ∧ c.torn = none := by
  induction incidents generalizing w with
  | nil => exact ⟨.nowhere, .nowhere rfl rfl, rfl⟩
  | cons incident rest ih =>
      obtain ⟨c, hfirst, -⟩ := model.serve_steers hstep incident
      obtain ⟨c', hrest, hwhole'⟩ := ih (by rwa [hfirst.step])
      have hwhole : c.torn = none := by
        rw [← Option.not_isSome_iff_eq_none]
        exact fun htorn => hmodel (hfirst.sound.whole htorn)
      exact ⟨_, hfirst.trans hwhole hrest, hwhole'⟩

end Model

end ChipChain
