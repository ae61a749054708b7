import ChipChain.Proofs.Bits.Carry

/-!
# Counting on the bits of a mask

The bits of a value under a mask, pushed together, make a number. Counting it up by one
flips the mask's bits up to the first that is clear in the value, and no others. Set beside
what a step flips (`LowestRun.increment_flips_of_filled`), this tells when a step counts: the
number goes up by one, and all else stays, exactly if the carry finds a bit of the mask wherever
it sets down. The main statement is `countsUp_increment_iff`.
-/

namespace ChipChain

namespace Masked

variable {w : Nat} {value mask : BitVec w} {low top i : Nat}

/-! ## Numbers in chosen bits -/

/-- The number that a value's bits at these places make, the first place lowest. -/
def number (value : BitVec w) (places : List Nat) : Nat :=
  places.foldr (fun i higher => 2 * higher + (value.getLsbD i).toNat) 0

def places (mask : BitVec w) : List Nat :=
  (List.range w).filter mask.getLsbD

theorem mem_places_iff : i ∈ places mask ↔ mask.getLsbD i = true := by
  rw [places, List.mem_filter, List.mem_range, and_iff_right_iff_imp]
  exact BitVec.lt_of_getLsbD

theorem places_sorted (mask : BitVec w) : (places mask).Pairwise (· < ·) :=
  List.pairwise_lt_range.filter _

theorem reading_eq (value mask : BitVec w) : reading value mask = number value (places mask) := by
  rw [number, places, List.foldr_filter, reading]

section

variable {other : BitVec w} {ps : List Nat}

theorem number_cons (value : BitVec w) (i : Nat) (ps : List Nat) :
    number value (i :: ps) = 2 * number value ps + (value.getLsbD i).toNat := rfl

theorem number_eq_iff : number other ps = number value ps ↔
    ∀ i ∈ ps, other.getLsbD i = value.getLsbD i := by
  induction ps with
  | nil => simp [number]
  | cons i rest ih =>
      rw [number_cons, number_cons, List.forall_mem_cons, ← ih]
      cases value.getLsbD i <;> cases other.getLsbD i <;> simp <;> omega

theorem number_eq_succ_iff (hsorted : ps.Pairwise (· < ·)) :
    number other ps = number value ps + 1 ↔
      (∃ i ∈ ps, value.getLsbD i = false) ∧
        ∀ i ∈ ps, (other.getLsbD i ≠ value.getLsbD i ↔
          ∀ j ∈ ps, j < i → value.getLsbD j = true) := by
  induction ps with
  | nil => simp [number]
  | cons first rest ih =>
      obtain ⟨hfirst, hsorted⟩ := List.pairwise_cons.1 hsorted
      have hlowest : ∀ j ∈ first :: rest, j < first → value.getLsbD j = true := by
        refine List.forall_mem_cons.2 ⟨fun h => absurd h (Nat.lt_irrefl _), fun j hj hlt => ?_⟩
        exact absurd hlt (hfirst j hj).not_gt
      have hsome : (∃ i ∈ first :: rest, value.getLsbD i = false) ↔
          value.getLsbD first = false ∨ ∃ i ∈ rest, value.getLsbD i = false := by
        simp
      rw [number_cons, number_cons, List.forall_mem_cons, hsome, iff_true_right hlowest]
      cases hbit : value.getLsbD first with
      | false =>
          -- The lowest bit is set, and the others stay.
          have hstay : (∀ i ∈ rest, (other.getLsbD i ≠ value.getLsbD i ↔
              ∀ j ∈ first :: rest, j < i → value.getLsbD j = true)) ↔
                number other rest = number value rest := by
            rw [number_eq_iff]
            refine forall₂_congr fun i hi => ?_
            have hnot : ¬ ∀ j ∈ first :: rest, j < i → value.getLsbD j = true := fun hall => by
              have hset := hall first List.mem_cons_self (hfirst i hi)
              rw [hbit] at hset
              cases hset
            rw [iff_false_right hnot, ne_eq, not_not]
          rw [hstay]
          cases other.getLsbD first <;> simp
          omega
      | true =>
          -- The lowest bit is cleared, and the others are counted up.
          have honward : (∀ i ∈ rest, (other.getLsbD i ≠ value.getLsbD i ↔
              ∀ j ∈ first :: rest, j < i → value.getLsbD j = true)) ↔
                ∀ i ∈ rest, (other.getLsbD i ≠ value.getLsbD i ↔
                  ∀ j ∈ rest, j < i → value.getLsbD j = true) := by
            refine forall₂_congr fun i hi => ?_
            rw [List.forall_mem_cons, and_iff_right fun _ => hbit]
          have hrest : (∃ i ∈ rest, value.getLsbD i = false) ∧ (∀ i ∈ rest,
              (other.getLsbD i ≠ value.getLsbD i ↔
                ∀ j ∈ rest, j < i → value.getLsbD j = true)) ↔
                  number other rest = number value rest + 1 := (ih hsorted).symm
          rw [honward, and_left_comm, Bool.true_eq_false, false_or, hrest]
          cases other.getLsbD first <;> simp <;> omega

end

/-! ## Counting up -/

/-- From one word to the other, the number under the mask has been counted up by so much, and
nothing has changed outside of the mask. -/
structure CountsUp (mask value : BitVec w) (count : Nat) (next : BitVec w) : Prop where
  reading : reading next mask = reading value mask + count
  outside : ∀ i, mask.getLsbD i = false → next.getLsbD i = value.getLsbD i

/-- The lowest bit of the mask that is clear in the value. -/
structure FirstFree (value mask : BitVec w) (free : Nat) : Prop where
  masked : mask.getLsbD free = true
  clear : value.getLsbD free = false
  before : ∀ i < free, mask.getLsbD i = true → value.getLsbD i = true

theorem FirstFree.not_set {free : Nat} (h : FirstFree value mask free) :
    value.getLsbD free ≠ true := by
  simp [h.clear]

theorem exists_firstFree (h : ∃ i, mask.getLsbD i = true ∧ value.getLsbD i = false) :
    ∃ free, FirstFree value mask free := by
  obtain ⟨hmasked, hclear⟩ := Nat.find_spec h
  refine ⟨Nat.find h, hmasked, hclear, fun i hi hmask => ?_⟩
  cases hbit : value.getLsbD i with
  | true => rfl
  | false => exact absurd ⟨hmask, hbit⟩ (Nat.find_min h hi)

theorem countsUp_one_iff {next : BitVec w} {free : Nat} (h : FirstFree value mask free) :
    CountsUp mask value 1 next ↔
      ∀ i, next.getLsbD i ≠ value.getLsbD i ↔ mask.getLsbD i = true ∧ i ≤ free := by
  have hbefore (i : Nat) :
      (∀ j ∈ places mask, j < i → value.getLsbD j = true) ↔ i ≤ free := by
    constructor
    · intro hall
      refine Nat.le_of_not_lt fun hlt => h.not_set ?_
      exact hall free (mem_places_iff.2 h.masked) hlt
    · intro hle j hj hlt
      exact h.before j (by omega) (mem_places_iff.1 hj)
  have hsome : ∃ i ∈ places mask, value.getLsbD i = false :=
    ⟨free, mem_places_iff.2 h.masked, h.clear⟩
  have hnumber : reading next mask = reading value mask + 1 ↔
      ∀ i, mask.getLsbD i = true → (next.getLsbD i ≠ value.getLsbD i ↔ i ≤ free) := by
    rw [reading_eq, reading_eq, number_eq_succ_iff (places_sorted mask), and_iff_right hsome]
    refine forall_congr' fun i => ?_
    rw [mem_places_iff, hbefore]
  constructor
  · rintro ⟨hreading, houtside⟩ i
    have hinside := hnumber.1 hreading i
    cases hmask : mask.getLsbD i with
    | true => rw [hinside hmask, and_iff_right rfl]
    | false => simp [houtside i hmask]
  · intro hflip
    refine ⟨hnumber.2 fun i hmask => ?_, fun i hmask => ?_⟩
    · rw [hflip, and_iff_right hmask]
    · refine not_not.1 fun hne => ?_
      have hmasked := ((hflip i).1 hne).1
      rw [hmask] at hmasked
      cases hmasked

section

variable {free : Nat}

theorem LowestRun.increment_flips_of_not_filled (h : LowestRun mask low top)
    (hroom : ¬ Filled value low top) (i : Nat) :
    (increment value mask).getLsbD i ≠ value.getLsbD i ↔
      low ≤ i ∧ i < top ∧ Filled value low i := by
  have hstays : overflow value mask = 0#w := by rw [h.overflow_eq, if_neg hroom]
  rw [increment_of_overflow_eq hstays, h.getLsbD_written value i]
  cases value.getLsbD i <;> simp

theorem LowestRun.increment_flips_of_filled (h : LowestRun mask low top)
    (hfull : Filled value low top) (i : Nat) :
    (increment value mask).getLsbD i ≠ value.getLsbD i ↔
      low ≤ i ∧ i < top ∨ Reaches value (top + 1) i ∧ i < w := by
  have htop := h.top_le
  by_cases hi : i < w
  · rw [h.getLsbD_increment_of_filled hfull hi]
    by_cases hin : low ≤ i ∧ i < top
    · have hbelow : ¬ Reaches value (top + 1) i := fun hreach => absurd hreach.1 (by omega)
      simp [hin, hbelow, hfull i hin.1 hin.2]
    · cases value.getLsbD i <;> simp [hin, hi]
  · rw [BitVec.getLsbD_of_ge _ i (by omega), BitVec.getLsbD_of_ge _ i (by omega)]
    simp [hi, show ¬ i < top by omega]

theorem FirstFree.lt_iff (hfree : FirstFree value mask free) (hrun : LowestRun mask low top) :
    free < top ↔ ¬ Filled value low top := by
  constructor
  · intro hlt hfull
    exact hfree.not_set (hfull free (hrun.low_le hfree.masked) hlt)
  · intro hroom
    refine Nat.lt_of_not_le fun hle => hroom fun i hlow htop => ?_
    exact hfree.before i (by omega) (hrun.filled i hlow htop)

theorem countsUp_increment_of_not_filled (hrun : LowestRun mask low top)
    (hroom : ¬ Filled value low top) : CountsUp mask value 1 (increment value mask) := by
  have hclear : ∃ i, mask.getLsbD i = true ∧ value.getLsbD i = false := by
    simp only [Filled, not_forall, Bool.not_eq_true] at hroom
    obtain ⟨i, hlow, htop, hclear⟩ := hroom
    exact ⟨i, hrun.filled i hlow htop, hclear⟩
  obtain ⟨free, hfree⟩ := exists_firstFree hclear
  have hlt := (hfree.lt_iff hrun).2 hroom
  rw [countsUp_one_iff hfree]
  intro i
  rw [hrun.increment_flips_of_not_filled hroom]
  constructor
  · rintro ⟨hbelow, htop, hfilled⟩
    refine ⟨hrun.filled i hbelow htop, Nat.le_of_not_lt fun hpast => hfree.not_set ?_⟩
    exact hfilled free (hrun.low_le hfree.masked) hpast
  · rintro ⟨hmask, hle⟩
    refine ⟨hrun.low_le hmask, by omega, fun j hj hj' => ?_⟩
    exact hfree.before j (by omega) (hrun.filled j hj (by omega))

section

variable (hrun : LowestRun mask low top) (hfree : FirstFree value mask free)
  (hfull : Filled value low top)

include hrun hfree hfull

theorem spaced_of_countsUp (hcounts : CountsUp mask value 1 (increment value mask)) {i : Nat}
    (hle : top ≤ i) (hle' : i ≤ free) : mask.getLsbD i = decide ((i - top) % 2 = 1) := by
  have hge : top ≤ free := hle.trans hle'
  have hwidth : free < w := BitVec.lt_of_getLsbD hfree.masked
  have hflips (i : Nat) := (hrun.increment_flips_of_filled hfull i).symm.trans
    ((countsUp_one_iff hfree).1 hcounts i)
  obtain ⟨hfirst, heven, hset⟩ :=
    (((hflips free).2 ⟨hfree.masked, Nat.le_refl _⟩).resolve_left (by omega)).1
  rw [Bool.eq_iff_iff, decide_eq_true_iff]
  constructor
  · intro hmask
    have hreach := ((hflips i).2 ⟨hmask, hle'⟩).resolve_left (by omega)
    have hdvd := hreach.1.2.1
    have hpast := hreach.1.1
    omega
  · intro hmod
    refine ((hflips i).1 (.inr ⟨⟨by omega, by omega, fun j hj hj' => ?_⟩, by omega⟩)).1
    exact hset j hj (by omega)

/-- If every other bit up to the first free place is in the mask, the carry gets there and no
further. -/
theorem countsUp_of_spaced (hspaced : ∀ i, top ≤ i → i ≤ free →
    mask.getLsbD i = decide ((i - top) % 2 = 1)) :
    CountsUp mask value 1 (increment value mask) := by
  have hge : top ≤ free := Nat.le_of_not_lt fun hlt => (hfree.lt_iff hrun).1 hlt hfull
  have hwidth : free < w := BitVec.lt_of_getLsbD hfree.masked
  have hlast := hspaced free hge (Nat.le_refl _)
  rw [hfree.masked, eq_comm, decide_eq_true_iff] at hlast
  rw [countsUp_one_iff hfree]
  intro i
  rw [hrun.increment_flips_of_filled hfull]
  constructor
  · rintro (⟨hbelow, htop⟩ | ⟨⟨hfirst, heven, hset⟩, -⟩)
    · exact ⟨hrun.filled i hbelow htop, by omega⟩
    · have hle : i ≤ free := Nat.le_of_not_lt fun hpast =>
        hfree.not_set (hset free (by omega) hpast (by omega))
      rw [hspaced i (by omega) hle, decide_eq_true_iff]
      omega
  · rintro ⟨hmask, hle⟩
    by_cases htop : i < top
    · exact .inl ⟨hrun.low_le hmask, htop⟩
    · have hmod := hspaced i (by omega) hle
      rw [hmask, eq_comm, decide_eq_true_iff] at hmod
      refine .inr ⟨⟨by omega, by omega, fun j hj hj' heven => ?_⟩, by omega⟩
      refine hfree.before j (by omega) ?_
      rw [hspaced j (by omega) (by omega), decide_eq_true_iff]
      omega

end

/-- A step counts exactly if, from the top of the mask's lowest run up to the first free place, every
other bit is in the mask, the first of them not. -/
theorem countsUp_increment_iff (hrun : LowestRun mask low top)
    (hfree : FirstFree value mask free) :
    CountsUp mask value 1 (increment value mask) ↔
      ∀ i, top ≤ i → i ≤ free → mask.getLsbD i = decide ((i - top) % 2 = 1) := by
  by_cases hfull : Filled value low top
  case pos =>
    exact ⟨fun hcounts _ => spaced_of_countsUp hrun hfree hfull hcounts,
      countsUp_of_spaced hrun hfree hfull⟩
  case neg =>
    have hlt := (hfree.lt_iff hrun).2 hfull
    exact iff_of_true (countsUp_increment_of_not_filled hrun hfull) fun i hle hle' => by omega

end

theorem CountsUp.trans {mask value next last : BitVec w} {count count' : Nat}
    (h : CountsUp mask value count next) (h' : CountsUp mask next count' last) :
    CountsUp mask value (count + count') last where
  reading := by rw [h'.reading, h.reading, Nat.add_assoc]
  outside i hi := (h'.outside i hi).trans (h.outside i hi)

theorem LowestRun.countsUp_iterate (h : LowestRun mask low top) {count : Nat}
    (hroom : field value low top + count < 2 ^ (top - low)) :
    CountsUp mask value count ((increment · mask)^[count] value) := by
  induction count with
  | zero => exact ⟨rfl, fun _ _ => rfl⟩
  | succ count ih =>
      have hroom' : field value low top + count < 2 ^ (top - low) := by omega
      have hfield := field_of_toNat_eq (h.toNat_iterate_increment hroom') hroom'
      rw [Function.iterate_succ_apply']
      refine (ih hroom').trans (countsUp_increment_of_not_filled h ?_)
      rw [filled_iff_field_eq]
      omega

end Masked

end ChipChain
