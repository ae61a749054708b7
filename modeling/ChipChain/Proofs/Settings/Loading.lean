import ChipChain.Proofs.Frequency
import ChipChain.Proofs.Settings.Naming
import ChipChain.Settings.Load

/-!
# Loading settings

What a load makes of every store: when it fails, which frequency it takes and leaves
behind, and what further loads come to. A store that a load has been through holds a
number for the frequency, and from then on two stores that differ under the older name
alone load alike (`Alike.loads_filter`). The main statement is `load_settles`.
-/

namespace ChipChain

namespace Store

theorem number?_eq_some {s : Store} {key : String} {value : Single} :
    s.number? key = some value ↔ s.get? key = some (.number value) := by
  unfold number?
  split <;> simp_all

theorem word?_eq_some {s : Store} {key : String} {value : UInt16} :
    s.word? key = some value ↔ s.get? key = some (.word value) := by
  unfold word?
  split <;> simp_all

theorem text?_eq_some {s : Store} {key value : String} :
    s.text? key = some value ↔ s.get? key = some (.text value) := by
  unfold text?
  split <;> simp_all

end Store

namespace Settings

open Store

/-! ## Where a frequency comes from -/

/-- The frequency counts as absent: nothing is stored, or something that is no number or a number
below zero. -/
def Unset (store : Store) : Prop :=
  ∀ mhz, store.get? Key.frequency = some (.number mhz) → mhz.isNonneg = false

/-- The number of megahertz that a load takes from a store, and the frequency that it stands for. -/
inductive Origin (store : Store) (model : Model) : Single → Frequency → Prop
  | stored {mhz : Single} (h : store.get? Key.frequency = some (.number mhz))
      (hnonneg : mhz.isNonneg = true) : Origin store model mhz (.ofMhz mhz)
  | legacy {word : UInt16} (hunset : Unset store)
      (h : store.get? Key.legacyFrequency = some (.word word)) :
      Origin store model (.ofRatio word.toNat 1) ⟨word.toNat * 1000000⟩
  | default (hunset : Unset store)
      (h : ∀ word, store.get? Key.legacyFrequency ≠ some (.word word)) :
      Origin store model (.ofRatio (model.family.defaultFrequency.hz / 1000000) 1)
        model.family.defaultFrequency

theorem unset_of_filter {store : Store}
    (h : (store.number? Key.frequency).filter Single.isNonneg = none) : Unset store := by
  intro mhz hmhz
  rw [Store.number?_eq_some.2 hmhz, Option.filter_eq_none_iff] at h
  exact Bool.eq_false_iff.2 (h mhz rfl)

theorem toNat_defaultMhz (model : Model) :
    (defaultMhz model).toNat = model.family.defaultFrequency.hz / 1000000 := by
  cases model <;> decide

theorem defaultFrequency_whole (model : Model) :
    model.family.defaultFrequency.hz / 1000000 * 1000000 = model.family.defaultFrequency.hz := by
  cases model <;> decide

theorem ofMhz_word (word : UInt16) :
    Frequency.ofMhz (.ofRatio word.toNat 1) = ⟨word.toNat * 1000000⟩ :=
  Frequency.ofMhz_whole (Nat.lt_trans word.toNat_lt (by decide))

theorem isNonneg_word (word : UInt16) : (Single.ofRatio word.toNat 1).isNonneg = true :=
  Single.isNonneg_whole (Nat.lt_trans word.toNat_lt (by decide))

/-- The number that a load takes stands in the store afterwards, and nothing else has changed. -/
structure Resolved (store : Store) (model : Model) (mhz : Single) (kept : Store) : Prop where
  origin : Origin store model mhz (.ofMhz mhz)
  nonneg : mhz.isNonneg = true
  stored : kept.get? Key.frequency = some (.number mhz)
  others : ∀ key, key ≠ Key.frequency → kept.get? key = store.get? key

/-- What is written in place of an absent frequency: the older whole number, or else the
default. -/
theorem origin_of_unset {store : Store} (h : Unset store) (model : Model) :
    let word := store.wordOr Key.legacyFrequency (defaultMhz model)
    Origin store model (.ofRatio word.toNat 1) (.ofMhz (.ofRatio word.toNat 1)) := by
  simp only [ofMhz_word, Store.wordOr]
  cases hlegacy : store.word? Key.legacyFrequency with
  | some word => exact .legacy h (Store.word?_eq_some.1 hlegacy)
  | none =>
      have hmissing : ∀ word, store.get? Key.legacyFrequency ≠ some (.word word) := by
        intro word hget
        rw [Store.word?_eq_some.2 hget] at hlegacy
        cases hlegacy
      rw [Option.getD_none, toNat_defaultMhz, defaultFrequency_whole]
      exact .default h hmissing

theorem exists_resolved (store : Store) (model : Model) :
    ∃ mhz kept reports, resolveFrequency store (defaultMhz model) = (mhz, kept, reports) ∧
      Resolved store model mhz kept := by
  unfold resolveFrequency
  split
  case h_1 mhz hstored =>
    obtain ⟨hnumber, hnonneg⟩ := Option.filter_eq_some_iff.1 hstored
    have hget := Store.number?_eq_some.1 hnumber
    exact ⟨mhz, store, [], rfl, .stored hget hnonneg, hnonneg, hget, fun _ _ => rfl⟩
  case h_2 hunset =>
    exact ⟨_, _, _, rfl, origin_of_unset (unset_of_filter hunset) model, isNonneg_word _,
      by rw [Store.get?_set, if_pos rfl], fun key hkey => by rw [Store.get?_set, if_neg hkey]⟩

theorem resolveFrequency_of_stored {store : Store} {mhz : Single}
    (h : store.get? Key.frequency = some (.number mhz)) (hnonneg : mhz.isNonneg = true)
    (default : UInt16) : resolveFrequency store default = (mhz, store, []) := by
  simp only [resolveFrequency, Store.number?_eq_some.2 h, Option.filter, hnonneg, if_true]

/-! ## One load -/

def assembled (model : Model) (mhz : Single) (store : Store) : Settings where
  model
  chipCount := store.wordOr Key.chipCount 1
  frequency := .ofMhz mhz
  voltage := store.wordOr Key.voltage model.family.defaultVoltage
  difficulty :=
    ((store.word? Key.difficulty).map UInt16.toUInt32).getD model.family.defaultDifficulty
  jobInterval := store.word? Key.jobInterval
  overheat := store.wordOr Key.overheat 0 != 0

theorem load_of_parse {store kept : Store} {text : String} {model : Model} {mhz : Single}
    {reports : List Entry} (htext : store.text? Key.model = some text)
    (hparse : Model.parse text = .ok model)
    (h : resolveFrequency store (defaultMhz model) = (mhz, kept, reports)) :
    (load store).1 = .ok (assembled model mhz kept) ∧ (load store).2.1 = kept := by
  simp only [load, htext, hparse, h]
  exact ⟨rfl, trivial⟩

theorem load_of_stored {store : Store} {text : String} {model : Model} {mhz : Single}
    (htext : store.text? Key.model = some text) (hparse : Model.parse text = .ok model)
    (h : store.get? Key.frequency = some (.number mhz)) (hnonneg : mhz.isNonneg = true) :
    (load store).1 = .ok (assembled model mhz store) ∧ (load store).2.1 = store :=
  load_of_parse htext hparse (resolveFrequency_of_stored h hnonneg _)

theorem load_of_unnamed {store : Store}
    (h : ∀ text, store.get? Key.model = some (.text text) →
      ∀ model : Model, ¬ model.NamedBy text) :
    (load store).1 = .error ⟨store.textOr Key.model ""⟩ ∧ (load store).2.1 = store := by
  cases htext : store.text? Key.model with
  | none => simp [load, htext, Store.textOr]
  | some text =>
      have hparse := Model.parse_of_unnamed (h text (Store.text?_eq_some.1 htext))
      simp [load, htext, hparse, Store.textOr]

/-! ## Loads one after another -/

/-- What happens to a store over time. -/
inductive Use where
  | write (key : String) (value : Setting)
  | load

namespace Use

def isLegacy : Use → Bool
  | write key _ => key == Key.legacyFrequency
  | load => false

/-- Whatever is written for the frequency is a number, and not below zero. -/
def Keeps : Use → Prop
  | write key value => key = Key.frequency → ∃ mhz, value = .number mhz ∧ mhz.isNonneg = true
  | load => True

end Use

/-- What the loads of a history come to. -/
def loads : Store → List Use → List (Except Model.Unknown Settings)
  | _, [] => []
  | store, .write key value :: rest => loads (store.set key value) rest
  | store, .load :: rest => (load store).1 :: loads (load store).2.1 rest

/-- Two stores that differ under the older name alone, in both of which a load finds a number for
the frequency. -/
structure Alike (s t : Store) : Prop where
  same : ∀ key, key ≠ Key.legacyFrequency → s.get? key = t.get? key
  settled : ∃ mhz, t.get? Key.frequency = some (.number mhz) ∧ mhz.isNonneg = true

namespace Alike

variable {s t : Store}

theorem write_legacy (h : Alike s t) (value : Setting) :
    Alike (s.set Key.legacyFrequency value) t := by
  refine ⟨fun key hkey => ?_, h.settled⟩
  rw [Store.get?_set, if_neg hkey]
  exact h.same key hkey

theorem write (h : Alike s t) {key : String} {value : Setting}
    (hkeeps : (Use.write key value).Keeps) :
    Alike (s.set key value) (t.set key value) := by
  refine ⟨fun other hother => ?_, ?_⟩
  · rw [Store.get?_set, Store.get?_set, h.same other hother]
  · rw [Store.get?_set]
    split
    case isTrue hkey =>
      obtain ⟨mhz, rfl, hnonneg⟩ := hkeeps hkey.symm
      exact ⟨mhz, rfl, hnonneg⟩
    case isFalse => exact h.settled

theorem assembled_eq (h : Alike s t) (model : Model) (mhz : Single) :
    assembled model mhz s = assembled model mhz t := by
  have hword : ∀ key, key ≠ Key.legacyFrequency → s.word? key = t.word? key := by
    intro key hkey
    rw [Store.word?, Store.word?, h.same key hkey]
  simp only [assembled, Store.wordOr, hword Key.chipCount (by decide),
    hword Key.voltage (by decide), hword Key.difficulty (by decide),
    hword Key.jobInterval (by decide), hword Key.overheat (by decide)]

theorem load_eq (h : Alike s t) :
    (load s).1 = (load t).1 ∧ (load s).2.1 = s ∧ (load t).2.1 = t := by
  obtain ⟨mhz, ht, hnonneg⟩ := h.settled
  have hs : s.get? Key.frequency = some (.number mhz) := by
    rw [h.same _ (by decide), ht]
  have htext : s.text? Key.model = t.text? Key.model := by
    rw [Store.text?, Store.text?, h.same _ (by decide)]
  by_cases hnamed : ∃ text, t.text? Key.model = some text ∧ ∃ model, Model.parse text = .ok model
  case pos =>
    obtain ⟨text, hmodel, model, hparse⟩ := hnamed
    obtain ⟨hloads, hkepts⟩ := load_of_stored (htext.trans hmodel) hparse hs hnonneg
    obtain ⟨hloadt, hkeptt⟩ := load_of_stored hmodel hparse ht hnonneg
    exact ⟨by rw [hloads, hloadt, h.assembled_eq], hkepts, hkeptt⟩
  case neg =>
    have hunnamed : ∀ text, t.get? Key.model = some (.text text) →
        ∀ model : Model, ¬ model.NamedBy text := by
      intro text hget model hby
      exact hnamed ⟨text, Store.text?_eq_some.2 hget, Model.exists_parse_eq_ok hby⟩
    have hunnameds : ∀ text, s.get? Key.model = some (.text text) →
        ∀ model : Model, ¬ model.NamedBy text := by
      rwa [h.same Key.model (by decide)]
    obtain ⟨hloads, hkepts⟩ := load_of_unnamed hunnameds
    obtain ⟨hloadt, hkeptt⟩ := load_of_unnamed hunnamed
    exact ⟨by rw [hloads, hloadt, Store.textOr, Store.textOr, htext], hkepts, hkeptt⟩

/-- Whatever else happens, writing the older name makes no difference to any load. -/
theorem loads_filter (history : List Use) (h : Alike s t) (hkeeps : ∀ use ∈ history, use.Keeps) :
    loads s history = loads t (history.filter fun use => !use.isLegacy) := by
  -- A write to the older name moves the first store only, so the two are not the same for long.
  induction history generalizing s t with
  | nil => rfl
  | cons use rest ih =>
      have hrest : ∀ use ∈ rest, use.Keeps :=
        fun use hmem => hkeeps use (List.mem_cons_of_mem _ hmem)
      cases use with
      | load =>
          obtain ⟨hsame, hs, ht⟩ := h.load_eq
          change (load s).1 :: loads (load s).2.1 rest = (load t).1 :: loads (load t).2.1 _
          rw [hsame, hs, ht, ih h hrest]
      | write key value =>
          by_cases hkey : key = Key.legacyFrequency
          · subst hkey
            exact ih (h.write_legacy value) hrest
          · have hother : ((Use.write key value :: rest).filter fun use => !use.isLegacy) =
                .write key value :: rest.filter fun use => !use.isLegacy :=
              List.filter_cons_of_pos (by simpa [Use.isLegacy] using hkey)
            rw [hother]
            exact ih (h.write (hkeeps _ List.mem_cons_self)) hrest

end Alike

theorem loads_again {store : Store} {settings : Settings}
    (h : (load store).1 = .ok settings ∧ (load store).2.1 = store) {history : List Use}
    (hloads : ∀ use ∈ history, use = .load) :
    ∀ outcome ∈ loads store history, outcome = .ok settings := by
  induction history with
  | nil => exact nofun
  | cons use rest ih =>
      have hfirst : use = .load := hloads use List.mem_cons_self
      subst hfirst
      intro outcome hmem
      rw [loads, h.2, List.mem_cons] at hmem
      obtain rfl | hrest := hmem
      · exact h.1
      · exact ih (fun use hmem => hloads use (List.mem_cons_of_mem _ hmem)) outcome hrest

/-! ## What a load promises -/

/-- What is promised of a load that yields settings. -/
structure Loaded (store : Store) (settings : Settings) (kept : Store) : Prop where
  model : ∃ text, store.get? Key.model = some (.text text) ∧ settings.model.NamedBy text
  others : ∀ key, key ≠ Key.frequency → kept.get? key = store.get? key
  frequency : ∃ mhz, kept.get? Key.frequency = some (.number mhz) ∧
    settings.frequency = .ofMhz mhz ∧ Origin store settings.model mhz settings.frequency
  again : (load kept).1 = .ok settings ∧ (load kept).2.1 = kept
  /-- Writes to the older name alone: every further load yields the same settings. -/
  steady : ∀ history : List Use, (∀ use ∈ history, use = .load ∨ use.isLegacy = true) →
    ∀ outcome ∈ loads kept history, outcome = .ok settings
  /-- Among other writes, those to the older name could as well be left out. -/
  legacy : ∀ history : List Use, (∀ use ∈ history, use.Keeps) →
    loads kept history = loads kept (history.filter fun use => !use.isLegacy)

theorem Use.Keeps.of_isLegacy {use : Use} (h : use = .load ∨ use.isLegacy = true) : use.Keeps := by
  cases use with
  | load => trivial
  | write key value =>
      intro hkey
      subst hkey
      obtain h | h := h <;> cases h

theorem loaded_of_resolved {store kept : Store} {text : String} {model : Model} {mhz : Single}
    (htext : store.get? Key.model = some (.text text)) (hparse : Model.parse text = .ok model)
    (h : Resolved store model mhz kept) : Loaded store (assembled model mhz kept) kept := by
  have hmodel : kept.text? Key.model = some text := by
    rw [Store.text?_eq_some, h.others _ (by decide), htext]
  have hagain := load_of_stored hmodel hparse h.stored h.nonneg
  have halike : Alike kept kept := ⟨fun _ _ => rfl, mhz, h.stored, h.nonneg⟩
  refine ⟨⟨text, htext, Model.parse_eq_ok hparse⟩, h.others, ⟨mhz, h.stored, rfl, h.origin⟩, hagain,
    fun history hhistory => ?_, fun history hkeeps => halike.loads_filter history hkeeps⟩
  rw [halike.loads_filter history fun use hmem => .of_isLegacy (hhistory use hmem)]
  apply loads_again hagain
  intro use hmem
  obtain ⟨hmem, hother⟩ := List.mem_filter.1 hmem
  exact (hhistory use hmem).resolve_right (by simpa using hother)

/-- A load fails exactly when the store names no model, and then leaves the store alone. Otherwise
it settles the frequency: in the store, and for every load to come. -/
theorem load_settles (store : Store) :
    ((∃ e, (load store).1 = .error e) ↔
      ¬ ∃ (text : String) (model : Model),
        store.get? Key.model = some (.text text) ∧ model.NamedBy text) ∧
    (∀ e, (load store).1 = .error e →
      e = ⟨store.textOr Key.model ""⟩ ∧ (load store).2.1 = store) ∧
    ∀ settings, (load store).1 = .ok settings → Loaded store settings (load store).2.1 := by
  by_cases hnamed : ∃ (text : String) (model : Model),
      store.get? Key.model = some (.text text) ∧ model.NamedBy text
  case pos =>
    obtain ⟨text, named, htext, hby⟩ := hnamed
    obtain ⟨model, hparse⟩ := Model.exists_parse_eq_ok hby
    obtain ⟨mhz, kept, reports, hresolve, hresolved⟩ := exists_resolved store model
    obtain ⟨hload, hkept⟩ := load_of_parse (Store.text?_eq_some.2 htext) hparse hresolve
    rw [hload, hkept]
    refine ⟨⟨nofun, fun hunnamed => absurd ⟨text, named, htext, hby⟩ hunnamed⟩, nofun, ?_⟩
    rintro settings ⟨⟩
    exact loaded_of_resolved htext hparse hresolved
  case neg =>
    have hunnamed : ∀ text, store.get? Key.model = some (.text text) →
        ∀ model : Model, ¬ model.NamedBy text :=
      fun text htext model hby => hnamed ⟨text, model, htext, hby⟩
    obtain ⟨hload, hkept⟩ := load_of_unnamed hunnamed
    rw [hload, hkept]
    refine ⟨⟨fun _ => hnamed, fun _ => ⟨_, rfl⟩⟩, ?_, nofun⟩
    rintro e ⟨⟩
    exact ⟨rfl, rfl⟩

/-- A store of an older installation: blanks around the model, a frequency below zero. -/
def older : Store :=
  ((({} : Store).set Key.model (.text " bm1370 ")).set Key.legacyFrequency (.word 550)).set
    Key.frequency (.number ⟨0xbf800000⟩)

theorem load_settles_older :
    (load older).1 = .ok ⟨.bm1370, 1, ⟨550000000⟩, 1150, 256, none, false⟩ ∧
      Loaded older ⟨.bm1370, 1, ⟨550000000⟩, 1150, 256, none, false⟩ (load older).2.1 := by
  have hload : (load older).1 = .ok ⟨.bm1370, 1, ⟨550000000⟩, 1150, 256, none, false⟩ := by
    decide +kernel
  exact ⟨hload, (load_settles older).2.2 _ hload⟩

end Settings

end ChipChain
