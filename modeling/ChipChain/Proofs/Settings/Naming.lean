import ChipChain.Model
import Mathlib.Data.List.DropRight

/-!
# Names of models

Which texts name a model. Trimming takes away what is blank at both ends and nothing
else, so a text names a model when it is the model's name between blanks, in letters of
either case (`Model.parse_eq_ok`, `Model.parse_of_unnamed`).
-/

namespace ChipChain

/-! ## Blanks around a text -/

namespace Blank

theorem isBlank_letter {c : Char} (hleast : 65 ≤ c.toNat) (hmost : c.toNat ≤ 122) :
    isBlank c = false := by
  rw [Bool.eq_false_iff]
  simp only [isBlank, ne_eq, Bool.or_eq_true, Bool.and_eq_true, decide_eq_true_eq, beq_iff_eq]
  omega

theorem isBlank_toLower (c : Char) : isBlank c.toLower = isBlank c := by
  unfold Char.toLower
  split
  case isTrue h =>
    have hleast : 65 ≤ c.val.toNat := h.1
    have hmost : c.val.toNat ≤ 90 := h.2
    have hlower : (c.val + ('a'.val - 'A'.val)).toNat = c.val.toNat + 32 := by
      rw [UInt32.toNat_add]
      exact Nat.mod_eq_of_lt (show c.val.toNat + 32 < 2 ^ 32 by omega)
    rw [isBlank_letter hleast (show c.val.toNat ≤ 122 by omega)]
    apply isBlank_letter <;> rw [Char.toNat, hlower] <;> omega
  case isFalse => rfl

theorem dropWhile_unblank {text : List Char} (h : ∀ c ∈ text, isBlank c = false) :
    text.dropWhile isBlank = text := by
  rw [List.dropWhile_eq_self_iff]
  intro hpos
  rw [h _ (List.getElem_mem hpos)]
  exact Bool.false_ne_true

theorem trim_surrounded {before text after : List Char} (hbefore : ∀ c ∈ before, isBlank c)
    (htext : ∀ c ∈ text, isBlank c = false) (hafter : ∀ c ∈ after, isBlank c) :
    trim (before ++ text ++ after) = text := by
  have hend : (text ++ after).rdropWhile isBlank = text := by
    have hreversed : ∀ c ∈ text.reverse, isBlank c = false :=
      fun c hc => htext c (List.mem_reverse.1 hc)
    rw [List.rdropWhile, List.reverse_append,
      List.dropWhile_append_of_pos fun c hc => hafter c (List.mem_reverse.1 hc),
      dropWhile_unblank hreversed, List.reverse_reverse]
  have hstart : (text ++ after).dropWhile isBlank = text ++ after ∨ text = [] := by
    cases text with
    | nil => exact .inr rfl
    | cons c rest => exact .inl (List.dropWhile_cons_of_neg (by simp [htext c List.mem_cons_self]))
  change ((before ++ text ++ after).dropWhile isBlank).rdropWhile isBlank = text
  rw [List.append_assoc, List.dropWhile_append_of_pos hbefore]
  obtain hkept | rfl := hstart
  · rw [hkept, hend]
  · rw [List.nil_append, List.dropWhile_eq_nil_iff.2 hafter]
    rfl

/-- Trimming takes blanks away at both ends, and nothing else. -/
theorem exists_trim (text : List Char) :
    ∃ before after, text = before ++ trim text ++ after ∧
      (∀ c ∈ before, isBlank c) ∧ ∀ c ∈ after, isBlank c := by
  refine ⟨text.takeWhile isBlank, (text.dropWhile isBlank).rtakeWhile isBlank, ?_,
    fun c => List.mem_takeWhile_imp, fun c => List.mem_rtakeWhile_imp⟩
  change text = text.takeWhile isBlank ++ (text.dropWhile isBlank).rdropWhile isBlank ++ _
  rw [List.append_assoc, List.rdropWhile_append_rtakeWhile, List.takeWhile_append_dropWhile]

end Blank

namespace Model

/-! ## Texts that name a model -/

/-- A text that is the name of a model but for blanks around it and the case of its letters. -/
def NamedBy (model : Model) (text : String) : Prop :=
  ∃ before name after, text.toList = before ++ name ++ after ∧
    (∀ c ∈ before, Blank.isBlank c) ∧ (∀ c ∈ after, Blank.isBlank c) ∧
    name.map Char.toLower = model.name.toList.map Char.toLower

theorem isBlank_name (model : Model) : ∀ c ∈ model.name.toList, Blank.isBlank c = false := by
  cases model <;> simp [name, Blank.isBlank]

theorem mem_all (model : Model) : model ∈ all := by
  cases model <;> decide

/-- The inside of a name has no blanks, so trimming finds it. -/
theorem namedBy_iff (model : Model) (text : String) :
    model.NamedBy text ↔
      (Blank.trim text.toList).map Char.toLower = model.name.toList.map Char.toLower := by
  constructor
  · rintro ⟨before, name, after, htext, hbefore, hafter, hname⟩
    have hunblank : ∀ c ∈ name, Blank.isBlank c = false := by
      intro c hc
      have hlower : c.toLower ∈ model.name.toList.map Char.toLower :=
        hname ▸ List.mem_map_of_mem hc
      obtain ⟨letter, hletter, hsame⟩ := List.mem_map.1 hlower
      rw [← Blank.isBlank_toLower, ← hsame, Blank.isBlank_toLower]
      exact isBlank_name model letter hletter
    rw [htext, Blank.trim_surrounded hbefore hunblank hafter]
    exact hname
  · intro hname
    obtain ⟨before, after, htext, hbefore, hafter⟩ := Blank.exists_trim text.toList
    exact ⟨before, _, after, htext, hbefore, hafter, hname⟩

theorem parse_eq_ok {text : String} {model : Model} (h : parse text = .ok model) :
    model.NamedBy text := by
  simp only [parse] at h
  split at h
  case h_1 found hfound =>
    have hname := List.find?_some hfound
    cases h
    exact (namedBy_iff model text).2 (beq_iff_eq.1 hname).symm
  case h_2 => cases h

theorem parse_of_unnamed {text : String} (h : ∀ model : Model, ¬ model.NamedBy text) :
    parse text = .error ⟨text⟩ := by
  have hnone : all.find? (fun model => model.name.toList.map Char.toLower ==
      (Blank.trim text.toList).map Char.toLower) = none := by
    rw [List.find?_eq_none]
    intro model _ hname
    exact h model ((namedBy_iff model text).2 (beq_iff_eq.1 hname).symm)
  simp only [parse, hnone]

theorem exists_parse_eq_ok {text : String} {model : Model} (h : model.NamedBy text) :
    ∃ found, parse text = .ok found := by
  simp only [parse]
  split
  case h_1 found _ => exact ⟨found, rfl⟩
  case h_2 hnone =>
    have hother := List.find?_eq_none.1 hnone model (mem_all model)
    rw [(namedBy_iff model text).1 h] at hother
    exact absurd (beq_self_eq_true _) hother

end Model

end ChipChain
