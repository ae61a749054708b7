import ChipChain.Work.Ledger
import Mathlib.Data.Nat.ModEq

/-!
# The ledger over time

Which identifiers an allocator hands out and when they recur, and what handing
out a job or reporting a result does to a ledger.
-/

namespace ChipChain

/-! ## Identifiers -/

namespace IdAllocator

/-- The identifier that an allocator of this step hands out as its `count`-th. -/
def nth (step : UInt8) (count : Nat) : UInt8 :=
  UInt8.ofNat (count * step.toNat % jobIdSpace)

/-- How many identifiers an allocator of this step hands out before they recur. -/
def period (step : UInt8) : Nat :=
  jobIdSpace / jobIdSpace.gcd step.toNat

theorem toNat_ofNat_mod (n : Nat) : (UInt8.ofNat (n % jobIdSpace)).toNat = n % jobIdSpace := by
  have h : n % jobIdSpace < 128 := Nat.mod_lt _ (by decide)
  rw [UInt8.toNat_ofNat', Nat.mod_eq_of_lt (by omega)]

theorem toNat_nth (step : UInt8) (count : Nat) :
    (nth step count).toNat = count * step.toNat % jobIdSpace :=
  toNat_ofNat_mod _

theorem nth_lt (step : UInt8) (count : Nat) : (nth step count).toNat < jobIdSpace := by
  rw [toNat_nth]
  exact Nat.mod_lt _ (by decide)

theorem next_lt (a : IdAllocator) : a.next.1.toNat < jobIdSpace := by
  rw [next, toNat_ofNat_mod]
  exact Nat.mod_lt _ (by decide)

theorem next_nth (step : UInt8) (count : Nat) :
    next ⟨nth step count, step⟩ = (nth step (count + 1), ⟨nth step (count + 1), step⟩) := by
  have h : UInt8.ofNat (((nth step count).toNat + step.toNat) % jobIdSpace) =
      nth step (count + 1) := by
    rw [toNat_nth, Nat.mod_add_mod, nth, Nat.succ_mul]
  rw [next, h]

theorem nth_eq_nth_iff {step : UInt8} {m n : Nat} :
    nth step m = nth step n ↔ m ≡ n [MOD period step] := by
  rw [← UInt8.toNat_inj, toNat_nth, toNat_nth]
  constructor
  · intro h
    exact Nat.ModEq.cancel_right_div_gcd (by decide) h
  · intro h
    -- A whole period of draws advances by a multiple of the space.
    have hspace : jobIdSpace ∣ period step * step.toNat := by
      rw [period, Nat.div_mul_right_comm (Nat.gcd_dvd_left ..),
        Nat.mul_div_assoc _ (Nat.gcd_dvd_right ..)]
      exact Nat.dvd_mul_right ..
    exact (h.mul_right' step.toNat).of_dvd hspace

theorem nth_ne_of_lt {step : UInt8} {m n : Nat} (hlt : m < n) (hn : n < m + period step) :
    nth step n ≠ nth step m := by
  intro h
  have hdvd := (Nat.modEq_iff_dvd' (Nat.le_of_lt hlt)).1 (nth_eq_nth_iff.1 h.symm)
  exact Nat.not_le_of_lt hn (by have := Nat.le_of_dvd (by omega) hdvd; omega)

/-- Every identifier is a multiple of what the step and the space have in common. -/
theorem gcd_dvd_nth (step : UInt8) (count : Nat) :
    jobIdSpace.gcd step.toNat ∣ (nth step count).toNat := by
  rw [toNat_nth]
  exact (Nat.dvd_mod_iff (Nat.gcd_dvd_left ..)).2
    (Nat.dvd_mul_left_of_dvd (Nat.gcd_dvd_right ..) _)

end IdAllocator

/-! ## Jobs and results -/

namespace Registry

theorem get?_install {r : Registry} {id : UInt8} (h : id.toNat < jobIdSpace) (other : UInt8)
    (job : Job) :
    (r.install id job).get? other = if other = id then some job else r.get? other := by
  simp [install, get?_put, h]

theorem get?_invalidate_of_ne {r : Registry} {id other : UInt8} (h : other ≠ id) :
    (r.invalidate id).get? other = r.get? other := by
  rw [invalidate, get?_put, if_neg fun hand => h hand.1]

end Registry

namespace Ledger

def blank (step : UInt8) : Ledger :=
  { ids := { step } }

/-- A job has become the live one under the next identifier. -/
def issue (l : Ledger) (job : Job) : Ledger :=
  { l with ids := l.ids.next.2, jobs := l.jobs.install l.ids.next.1 job }

/-- The result that a nonce under an identifier amounts to: there has to be a live job, and the
nonce must not be the one reported last. -/
def share? (l : Ledger) (id : UInt8) (nonce : UInt32) (version : Job → UInt32) : Option Share :=
  match l.jobs.get? id with
  | none => none
  | some job => if l.repeats.previous = some nonce then none else some ⟨id, nonce, version job, job⟩

def heard (l : Ledger) : Option Share → Ledger
  | none => l
  | some share => { l with repeats := ⟨some share.nonce⟩ }

theorem share?_eq_some_iff {l : Ledger} {id : UInt8} {nonce : UInt32} {version : Job → UInt32}
    {share : Share} :
    l.share? id nonce version = some share ↔
      ∃ job, l.jobs.get? id = some job ∧ l.repeats.previous ≠ some nonce ∧
        share = ⟨id, nonce, version job, job⟩ := by
  unfold share?
  cases l.jobs.get? id with
  | none => simp
  | some job =>
      by_cases h : l.repeats.previous = some nonce
      · simp [h]
      · simp [h, eq_comm]

theorem heard_jobs (l : Ledger) (share? : Option Share) :
    (l.heard share?).jobs = l.jobs := by
  cases share? <;> rfl

end Ledger

end ChipChain
