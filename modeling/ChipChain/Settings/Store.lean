import ChipChain.Number.Binary

/-!
# The settings store

Typed values under names. A value read as another type than it was written with
counts as absent.
-/

namespace ChipChain

inductive Setting where
  | word (value : UInt16)
  | number (value : Single)
  | text (value : String)
  deriving DecidableEq, Repr

/-- Values under names, no name twice. -/
structure Store where
  /-- The entries; the order carries no meaning. -/
  entries : List (String × Setting) := []
  deriving DecidableEq, Repr, Inhabited

namespace Store

def get? (s : Store) (key : String) : Option Setting :=
  s.entries.lookup key

def contains (s : Store) (key : String) : Bool :=
  (s.get? key).isSome

/-- Store a value in place of whatever was under the name. -/
def set (s : Store) (key : String) (value : Setting) : Store :=
  ⟨(key, value) :: s.entries.filter fun entry => entry.1 != key⟩

def word? (s : Store) (key : String) : Option UInt16 :=
  match s.get? key with
  | some (.word value) => some value
  | _ => none

def number? (s : Store) (key : String) : Option Single :=
  match s.get? key with
  | some (.number value) => some value
  | _ => none

def text? (s : Store) (key : String) : Option String :=
  match s.get? key with
  | some (.text value) => some value
  | _ => none

/-- The word under a name, or else the given one. -/
def wordOr (s : Store) (key : String) (default : UInt16) : UInt16 :=
  (s.word? key).getD default

/-- The number under a name, or else the given one. -/
def numberOr (s : Store) (key : String) (default : Single) : Single :=
  (s.number? key).getD default

/-- The text under a name, or else the given one. -/
def textOr (s : Store) (key : String) (default : String) : String :=
  (s.text? key).getD default

/-- Looking past entries of another name. -/
theorem lookup_filter_ne (entries : List (String × Setting)) {key other : String}
    (h : other ≠ key) :
    (entries.filter fun entry => entry.1 != key).lookup other = entries.lookup other := by
  induction entries with
  | nil => rfl
  | cons entry rest ih =>
    obtain ⟨name, value⟩ := entry
    by_cases hname : name = key
    · subst hname
      have hne : (other == name) = false := by simpa using h
      simp [List.lookup_cons, hne, ih]
    · have hkeep : (name != key) = true := by simpa using hname
      simp only [List.filter_cons, hkeep, if_true, List.lookup_cons]
      split
      · rfl
      · exact ih

/-- Setting changes one name and no other. -/
theorem get?_set (s : Store) (key other : String) (value : Setting) :
    (s.set key value).get? other = if other = key then some value else s.get? other := by
  unfold set get?
  by_cases h : other = key
  · simp [h]
  · have hne : (other == key) = false := by simpa using h
    simp [List.lookup_cons, hne, h, lookup_filter_ne _ h]

end Store

/-! ## Names of settings -/

namespace Store.Key

/-- Hash clock in megahertz. -/
def frequency : String := "asicfrequency_f"
/-- Hash clock in whole megahertz, as older installations have it. -/
def legacyFrequency : String := "asicfrequency"
def voltage : String := "asicvoltage"
def difficulty : String := "asicdifficulty"
def model : String := "asicmodel"
def chipCount : String := "asiccount"
def overheat : String := "overheat_mode"
def jobInterval : String := "jobinterval_ms"

end Store.Key

end ChipChain
