import ChipChain.Work.Job

/-!
# The ledger of work handed out

Identifiers for jobs, the job that is live under each identifier, and the
filter that drops a nonce reported twice in a row.
-/

namespace ChipChain

def jobIdSpace : Nat := 128

/-! ## Identifiers -/

/-- Hands out identifiers in equal steps, starting over past the end of the space. -/
structure IdAllocator where
  last : UInt8 := 0
  step : UInt8
  deriving DecidableEq, Repr, Inhabited

/-- The next identifier, with the allocator that has handed it out. -/
def IdAllocator.next (a : IdAllocator) : UInt8 × IdAllocator :=
  let id := UInt8.ofNat ((a.last.toNat + a.step.toNat) % jobIdSpace)
  (id, { a with last := id })

/-- The identifiers of the next `count` calls. -/
def IdAllocator.take (a : IdAllocator) : (count : Nat) → List UInt8
  | 0 => []
  | count + 1 => a.next.1 :: a.next.2.take count

/-! ## Live jobs -/

/-- The job that is live under each identifier. -/
structure Registry where
  slots : Vector (Option Job) jobIdSpace
  deriving Repr

namespace Registry

def empty : Registry := ⟨Vector.replicate jobIdSpace none⟩

instance : Inhabited Registry := ⟨empty⟩

/-- The job under an identifier; identifiers outside the space have none. -/
def get? (r : Registry) (id : UInt8) : Option Job :=
  if h : id.toNat < jobIdSpace then r.slots[id.toNat] else none

/-- Put a slot's content in place; identifiers outside the space are ignored. -/
def put (r : Registry) (id : UInt8) (content : Option Job) : Registry :=
  if h : id.toNat < jobIdSpace then ⟨r.slots.set id.toNat content⟩ else r

/-- Make a job the live one under an identifier. -/
def install (r : Registry) (id : UInt8) (job : Job) : Registry :=
  r.put id (some job)

def invalidate (r : Registry) (id : UInt8) : Registry :=
  r.put id none

def isLive (r : Registry) (id : UInt8) : Bool :=
  (r.get? id).isSome

def liveCount (r : Registry) : Nat :=
  r.slots.toList.countP Option.isSome

/-- Putting changes one slot and no other. -/
theorem get?_put (r : Registry) (id other : UInt8) (content : Option Job) :
    (r.put id content).get? other =
      if other = id ∧ id.toNat < jobIdSpace then content else r.get? other := by
  unfold put get?
  by_cases hid : id.toNat < jobIdSpace
  · by_cases hother : other.toNat < jobIdSpace
    · by_cases h : other = id
      · subst h
        simp [hid]
      · have hne : id.toNat ≠ other.toNat := fun e => h (UInt8.toNat_inj.1 e.symm)
        simp [hid, hother, h, hne]
    · have h : other ≠ id := by
        rintro rfl
        exact hother hid
      simp [hid, hother, h]
  · simp [hid]

/-- Nothing is live in the empty registry. -/
theorem get?_empty (id : UInt8) : empty.get? id = none := by
  unfold get? empty
  split <;> simp

end Registry

/-! ## Repeated nonces -/

/-- Remembers the nonce it let pass last. -/
structure RepeatFilter where
  previous : Option UInt32 := none
  deriving DecidableEq, Repr, Inhabited

/-- A nonce passes, and is remembered, unless it is the one remembered. -/
def RepeatFilter.accept (f : RepeatFilter) (nonce : UInt32) : Bool × RepeatFilter :=
  if f.previous = some nonce then (false, f) else (true, ⟨some nonce⟩)

/-- Everything a driver remembers about the work it has handed out. -/
structure Ledger where
  ids : IdAllocator
  jobs : Registry := .empty
  repeats : RepeatFilter := {}
  deriving Inhabited

end ChipChain
