import ChipChain.Checksum
import Mathlib.Algebra.BigOperators.Fin
import Mathlib.Algebra.Field.ZMod
import Mathlib.Dynamics.PeriodicPts.Lemmas
import Mathlib.Tactic.NormNum.Prime

/-!
# Remainders

The register is linear in what it takes in: bits that change on the way change a
checksum by the remainder that the changes alone leave in an empty register
(`foldl_shift_xor`). So what a checksum detects is a question of which patterns of
changes leave nothing: none that fit in the register (`remainder_ne_zero`), and two
changes only if a whole period of the register lies between them
(`remainder_pair_eq_zero_iff`). A generator with an even number of terms notices any odd
number of changes (`remainder_ne_zero_of_odd`).
-/

namespace ChipChain.Checksum

variable {w : Nat} {c : Checksum w}

/-! ## Linearity -/

theorem shift_eq (c : Checksum w) (register : BitVec w) (bit : Bool) :
    c.shift register bit =
      (register <<< 1) ^^^ if register.msb ^^ bit then c.poly else 0#w := by
  unfold shift
  cases register.msb <;> cases bit <;> simp

theorem shift_xor (c : Checksum w) (r s : BitVec w) (a b : Bool) :
    c.shift (r ^^^ s) (a ^^ b) = c.shift r a ^^^ c.shift s b := by
  have hpoly (x y : Bool) : (if x ^^ y then c.poly else 0#w) =
      (if x then c.poly else 0#w) ^^^ if y then c.poly else 0#w := by
    cases x <;> cases y <;> simp
  have hmsb : ((r ^^^ s).msb ^^ (a ^^ b)) = ((r.msb ^^ a) ^^ (s.msb ^^ b)) := by
    rw [BitVec.msb_xor, Bool.xor_assoc, Bool.xor_assoc, Bool.xor_left_comm s.msb]
  rw [shift_eq, shift_eq, shift_eq, hmsb, hpoly, BitVec.shiftLeft_xor_distrib]
  ac_rfl

theorem foldl_shift_xor (c : Checksum w) (r s : BitVec w) {bits changes : List Bool}
    (h : bits.length = changes.length) :
    (List.zipWith xor bits changes).foldl c.shift (r ^^^ s) =
      bits.foldl c.shift r ^^^ changes.foldl c.shift s := by
  induction bits generalizing changes r s with
  | nil =>
      obtain rfl := List.length_eq_zero_iff.1 h.symm
      rfl
  | cons bit bits ih =>
      obtain ⟨change, changes, rfl⟩ := List.exists_cons_of_length_eq_add_one h.symm
      rw [List.zipWith_cons_cons, List.foldl_cons, shift_xor, ih _ _ (by simpa using h)]
      rfl

/-- What is left in a register that starts empty. -/
def remainder (c : Checksum w) (bits : List Bool) : BitVec w :=
  bits.foldl c.shift 0#w

/-- What happens to the register when a zero is taken in. -/
def advance (c : Checksum w) (register : BitVec w) : BitVec w :=
  c.shift register false

theorem foldl_replicate_false (c : Checksum w) (register : BitVec w) (n : Nat) :
    (List.replicate n false).foldl c.shift register = c.advance^[n] register := by
  induction n generalizing register with
  | zero => rfl
  | succ n ih => exact ih (c.advance register)

theorem advance_zero (c : Checksum w) : c.advance 0#w = 0#w := by
  rw [advance, shift_eq]
  simp

theorem advance_xor (c : Checksum w) (r s : BitVec w) :
    c.advance (r ^^^ s) = c.advance r ^^^ c.advance s :=
  shift_xor c r s false false

theorem remainder_zipWith_xor (c : Checksum w) {bits changes : List Bool}
    (h : bits.length = changes.length) :
    c.remainder (List.zipWith xor bits changes) = c.remainder bits ^^^ c.remainder changes := by
  have hxor := foldl_shift_xor c 0#w 0#w h
  rwa [BitVec.xor_self] at hxor

theorem remainder_replicate_append (c : Checksum w) (n : Nat) (bits : List Bool) :
    c.remainder (List.replicate n false ++ bits) = c.remainder bits := by
  rw [remainder, List.foldl_append, foldl_replicate_false,
    Function.iterate_fixed (advance_zero c), remainder]

/-! ## The residue -/

/-- The leading bits of the register, taken in by it, only push themselves out. -/
theorem foldl_getMsbD (c : Checksum w) (register : BitVec w) (n : Nat) :
    ((List.range n).map register.getMsbD).foldl c.shift register = register <<< n := by
  induction n with
  | zero => simp
  | succ n ih =>
      rw [List.range_succ, List.map_append, List.foldl_append, ih]
      simp [shift, BitVec.msb_shiftLeft, BitVec.shiftLeft_add]

theorem foldl_self (c : Checksum w) (register : BitVec w) :
    ((List.range w).map register.getMsbD).foldl c.shift register = 0#w := by
  rw [foldl_getMsbD, BitVec.shiftLeft_eq_zero (Nat.le_refl w)]

/-! ## Generators with a constant term -/

section

variable (hunit : c.poly.getLsbD 0 = true)

include hunit

theorem getLsbD_zero_shift (register : BitVec w) (bit : Bool) :
    (c.shift register bit).getLsbD 0 = (register.msb ^^ bit) := by
  rw [shift_eq, BitVec.getLsbD_xor, BitVec.getLsbD_shiftLeft]
  cases register.msb <;> cases bit <;> simp [hunit]

theorem shift_eq_shiftLeft {register : BitVec w} {bit : Bool}
    (h : (c.shift register bit).getLsbD 0 = false) : c.shift register bit = register <<< 1 := by
  rw [getLsbD_zero_shift hunit] at h
  rw [shift_eq, h]
  simp

theorem getLsbD_eq_false_of_foldl {register : BitVec w} {bits : List Bool}
    (h : bits.foldl c.shift register = 0#w) {i : Nat} (hi : i + bits.length < w) :
    register.getLsbD i = false := by
  induction bits generalizing register i with
  | nil =>
      rw [show register = 0#w from h, BitVec.getLsbD_zero]
  | cons bit rest ih =>
      rw [List.length_cons] at hi
      have hlow := ih h (i := 0) (by omega)
      have hnext := ih h (i := i + 1) (by omega)
      rw [shift_eq_shiftLeft hunit hlow, BitVec.getLsbD_shiftLeft] at hnext
      simpa [show i + 1 < w by omega] using hnext

theorem advance_injective : Function.Injective c.advance := by
  -- Two registers that advance alike differ by one that advances to nothing.
  intro r s h
  have hzero : c.advance (r ^^^ s) = 0#w := by
    rw [advance_xor, h, BitVec.xor_self]
  have htop : (r ^^^ s).msb = false := by
    have hlow := getLsbD_zero_shift hunit (r ^^^ s) false
    rw [show c.shift (r ^^^ s) false = 0#w from hzero, BitVec.getLsbD_zero, Bool.xor_false] at hlow
    exact hlow.symm
  refine BitVec.xor_eq_zero_iff.1 (BitVec.eq_of_getLsbD_eq fun i hi => ?_)
  rw [BitVec.getLsbD_zero]
  by_cases hlast : i + 1 = w
  · rwa [BitVec.msb_eq_getLsbD_last, show w - 1 = i by omega] at htop
  · have hempty : [false].foldl c.shift (r ^^^ s) = 0#w := hzero
    have hroom : i + [false].length < w := by
      rw [List.length_singleton]
      omega
    exact getLsbD_eq_false_of_foldl hunit hempty hroom

/-- Changes that fit in the register leave something in it. -/
theorem remainder_ne_zero {bits : List Bool} (hlength : bits.length ≤ w) (hmem : true ∈ bits) :
    c.remainder bits ≠ 0#w := by
  induction bits with
  | nil => exact absurd hmem List.not_mem_nil
  | cons bit rest ih =>
      rw [List.length_cons] at hlength
      cases bit with
      | false =>
          have hrest := remainder_replicate_append c 1 rest
          rw [List.replicate_one, List.singleton_append] at hrest
          rw [hrest]
          exact ih (by omega) (by simpa using hmem)
      | true =>
          intro hzero
          -- The first change puts the generator in, and the rest is too short to reach its end.
          have hempty : rest.foldl c.shift (c.shift 0#w true) = 0#w := hzero
          have hfirst := getLsbD_eq_false_of_foldl hunit hempty (i := 0) (by omega)
          rw [getLsbD_zero_shift hunit] at hfirst
          simp at hfirst

end

/-! ## Changes at given places -/

/-- Which of `n` places from `start` on are places of `s`. -/
def changes (s : Finset Nat) (start n : Nat) : List Bool :=
  (List.range' start n).map fun place => decide (place ∈ s)

section

variable {s : Finset Nat} {start n : Nat}

theorem length_changes (s : Finset Nat) (start n : Nat) : (changes s start n).length = n := by
  rw [changes, List.length_map, List.length_range']

theorem changes_append (s : Finset Nat) (start m n : Nat) :
    changes s start m ++ changes s (start + m) n = changes s start (m + n) := by
  rw [changes, changes, changes, ← List.map_append, List.range'_append_1]

theorem changes_eq_replicate (h : ∀ i ∈ s, start ≤ i → start + n ≤ i) :
    changes s start n = List.replicate n false := by
  refine List.eq_replicate_iff.2 ⟨length_changes s start n, fun bit hbit => ?_⟩
  obtain ⟨i, hi, rfl⟩ := List.mem_map.1 hbit
  rw [List.mem_range'_1] at hi
  exact decide_eq_false fun hmem => by
    have hpast := h i hmem hi.1
    omega

theorem true_mem_changes_iff : true ∈ changes s start n ↔ ∃ i ∈ s, start ≤ i ∧ i < start + n := by
  simp only [changes, List.mem_map, List.mem_range'_1, decide_eq_true_iff]
  exact ⟨fun ⟨i, hi, hmem⟩ => ⟨i, hmem, hi⟩, fun ⟨i, hmem, hi⟩ => ⟨i, hi, hmem⟩⟩

theorem changes_symmDiff (s t : Finset Nat) (start n : Nat) :
    changes (symmDiff s t) start n = List.zipWith xor (changes s start n) (changes t start n) := by
  rw [changes, changes, changes, List.zipWith_map, List.zipWith_self]
  refine List.map_congr_left fun i _ => ?_
  rw [Bool.eq_iff_iff]
  simp [Finset.mem_symmDiff]
  tauto

theorem count_changes (h : ∀ i ∈ s, i < n) : (changes s 0 n).count true = s.card := by
  have hcount : (changes s 0 n).count true = ((List.range n).filter (· ∈ s)).length := by
    rw [changes, ← List.range_eq_range', List.count_eq_countP, List.countP_map,
      List.countP_eq_length_filter]
    simp [Function.comp_def]
  have hfilter : (Finset.range n).filter (· ∈ s) = s := by
    ext i
    simpa using h i
  rw [hcount, ← congrArg Finset.card hfilter]
  rfl

theorem remainder_singleton {i : Nat} (hfrom : start ≤ i) (hto : i < start + n) :
    c.remainder (changes {i} start n) = c.advance^[start + n - 1 - i] c.poly := by
  obtain ⟨before, rfl⟩ := Nat.exists_eq_add_of_le hfrom
  obtain ⟨after, rfl⟩ := Nat.exists_eq_add_of_le (show before + 1 ≤ n by omega)
  have hbefore : changes {start + before} start before = List.replicate before false :=
    changes_eq_replicate fun i hi _ => by rw [Finset.mem_singleton.1 hi]
  have hat : changes {start + before} (start + before) 1 = [true] := by simp [changes]
  have hafter : changes {start + before} (start + before + 1) after = List.replicate after false :=
    changes_eq_replicate fun i hi hlow => by
      rw [Finset.mem_singleton.1 hi] at hlow
      omega
  have hfirst : c.shift 0#w true = c.poly := by
    rw [shift_eq]
    simp
  rw [Nat.add_assoc, ← changes_append, ← changes_append, hbefore, hat, hafter,
    remainder_replicate_append, remainder, List.singleton_append, List.foldl_cons, hfirst,
    foldl_replicate_false]
  congr 1
  omega

end

/-! ## Bursts and pairs -/

section

variable {s : Finset Nat} {start n : Nat} (hunit : c.poly.getLsbD 0 = true)

include hunit

theorem remainder_append_replicate_eq_zero_iff (bits : List Bool) (n : Nat) :
    c.remainder (bits ++ List.replicate n false) = 0#w ↔ c.remainder bits = 0#w := by
  rw [remainder, List.foldl_append, foldl_replicate_false]
  have hzero := Function.iterate_fixed (advance_zero c) n
  constructor
  · intro h
    exact (advance_injective hunit).iterate n (h.trans hzero.symm)
  · intro h
    rw [show bits.foldl c.shift 0#w = 0#w from h, hzero]

/-- Changes that lie as close together as the register is long leave something in it. -/
theorem remainder_changes_ne_zero {first : Nat} (hburst : ∀ i ∈ s, first ≤ i ∧ i < first + w)
    (hmem : ∃ i ∈ s, start ≤ i ∧ i < start + n) : c.remainder (changes s start n) ≠ 0#w := by
  -- Cut into what lies before the burst, the burst, and what lies after it: only the middle counts.
  obtain ⟨before, hbefore⟩ : ∃ before, before = min (first - start) n := ⟨_, rfl⟩
  obtain ⟨within, hwithin⟩ : ∃ within, within = min w (n - before) := ⟨_, rfl⟩
  have hfront : changes s start before = List.replicate before false :=
    changes_eq_replicate fun i hi _ => by
      have hplace := hburst i hi
      omega
  have hback : changes s (start + before + within) (n - before - within) =
      List.replicate (n - before - within) false :=
    changes_eq_replicate fun i hi _ => by
      have hplace := hburst i hi
      omega
  have hcut : changes s start n = List.replicate before false ++
      (changes s (start + before) within ++ List.replicate (n - before - within) false) := by
    rw [← hfront, ← hback, changes_append, changes_append]
    congr 1
    omega
  have hsome : true ∈ changes s (start + before) within := by
    obtain ⟨i, hi, hfrom, hto⟩ := hmem
    have hplace := hburst i hi
    exact true_mem_changes_iff.2 ⟨i, hi, by omega, by omega⟩
  rw [hcut, remainder_replicate_append, Ne, remainder_append_replicate_eq_zero_iff hunit]
  exact remainder_ne_zero hunit (by rw [length_changes]; omega) hsome

/-- Two changes go unnoticed exactly if the register comes back to its generator in between. -/
theorem remainder_pair_eq_zero_iff {i j : Nat} (hfrom : start ≤ i) (hlt : i < j)
    (hto : j < start + n) :
    c.remainder (changes {i, j} start n) = 0#w ↔
      Function.IsPeriodicPt c.advance (j - i) c.poly := by
  have hpair : ({i, j} : Finset Nat) = symmDiff {i} {j} := by
    ext k
    simp only [Finset.mem_insert, Finset.mem_singleton, Finset.mem_symmDiff]
    omega
  have hlength : (changes {i} start n).length = (changes {j} start n).length := by
    rw [length_changes, length_changes]
  have hsplit : start + n - 1 - i = start + n - 1 - j + (j - i) := by omega
  rw [hpair, changes_symmDiff, remainder_zipWith_xor c hlength, BitVec.xor_eq_zero_iff,
    remainder_singleton hfrom (by omega), remainder_singleton (by omega) hto, hsplit,
    Function.iterate_add_apply, ((advance_injective hunit).iterate _).eq_iff]
  rfl

end

/-! ## Parity -/

/-- How many bits of the register are set, as even or odd. -/
def parity (register : BitVec w) : ZMod 2 :=
  ∑ i ∈ Finset.range w, ((register.getLsbD i).toNat : ZMod 2)

theorem toNat_xor (a b : Bool) : ((a ^^ b).toNat : ZMod 2) = a.toNat + b.toNat := by
  cases a <;> cases b <;> decide

theorem parity_zero : parity 0#w = 0 := by
  simp [parity]

theorem parity_xor (r s : BitVec w) : parity (r ^^^ s) = parity r + parity s := by
  rw [parity, parity, parity, ← Finset.sum_add_distrib]
  refine Finset.sum_congr rfl fun i _ => ?_
  rw [BitVec.getLsbD_xor, toNat_xor]

theorem parity_shiftLeft (register : BitVec w) :
    parity register = parity (register <<< 1) + (register.msb.toNat : ZMod 2) := by
  cases w with
  | zero => simp [parity, BitVec.eq_nil register]
  | succ n =>
      rw [parity, parity, Finset.sum_range_succ, Finset.sum_range_succ']
      have hmoved : ∀ i ∈ Finset.range n,
          (((register <<< 1).getLsbD (i + 1)).toNat : ZMod 2) = (register.getLsbD i).toNat := by
        intro i hi
        rw [BitVec.getLsbD_shiftLeft]
        simp [Finset.mem_range.1 hi]
      rw [Finset.sum_congr rfl hmoved, BitVec.msb_eq_getLsbD_last]
      simp

section

variable (heven : parity c.poly = 1)

include heven

theorem parity_shift (register : BitVec w) (bit : Bool) :
    parity (c.shift register bit) = parity register + (bit.toNat : ZMod 2) := by
  have hadded : parity (if register.msb ^^ bit then c.poly else 0#w) =
      ((register.msb ^^ bit).toNat : ZMod 2) := by
    cases register.msb ^^ bit
    · simp [parity_zero]
    · simp [heven]
  rw [shift_eq, parity_xor, hadded, toNat_xor, parity_shiftLeft register, add_assoc]

theorem parity_foldl (register : BitVec w) (bits : List Bool) :
    parity (bits.foldl c.shift register) = parity register + (bits.count true : ZMod 2) := by
  induction bits generalizing register with
  | nil => simp
  | cons bit rest ih =>
      rw [List.foldl_cons, ih, parity_shift heven, add_assoc]
      congr 1
      cases bit <;> simp [add_comm]

/-- A generator with an even number of terms notices every odd number of changes. -/
theorem remainder_ne_zero_of_odd {bits : List Bool} (h : Odd (bits.count true)) :
    c.remainder bits ≠ 0#w := by
  intro hzero
  have hparity := parity_foldl heven 0#w bits
  rw [show bits.foldl c.shift 0#w = 0#w from hzero, parity_zero, zero_add,
    ZMod.natCast_eq_one_iff_odd.2 h] at hparity
  exact zero_ne_one hparity

end

/-! ## The two checksums -/

theorem five_unit : five.poly.getLsbD 0 = true := by
  decide

theorem sixteen_unit : sixteen.poly.getLsbD 0 = true := by
  decide

/-- After 31 zeros, and not before, the register of five bits holds its generator again. -/
theorem minimalPeriod_five : Function.minimalPeriod five.advance five.poly = 31 := by
  have : Fact (Nat.Prime 31) := ⟨by norm_num⟩
  refine Function.minimalPeriod_eq_prime ?_ ?_
  · change five.advance^[31] five.poly = five.poly
    decide +kernel
  · change five.advance five.poly ≠ five.poly
    decide +kernel

/-- Whether the register holds `goal` after one of the next `n` zeros. -/
def comesBack (c : Checksum w) (goal : BitVec w) : Nat → BitVec w → Bool
  | 0, _ => false
  | n + 1, register => c.advance register == goal || c.comesBack goal n (c.advance register)

theorem comesBack_of_iterate {goal register : BitVec w} {n m : Nat} (hlt : m < n)
    (h : c.advance^[m + 1] register = goal) : c.comesBack goal n register = true := by
  induction n generalizing register m with
  | zero => exact absurd hlt (Nat.not_lt_zero m)
  | succ n ih =>
      rw [comesBack, Bool.or_eq_true]
      cases m with
      | zero => exact .inl (beq_iff_eq.2 h)
      | succ m => exact .inr (ih (by omega) h)

/-- The register of sixteen bits does not come back to its generator within the 2040 places of the
longest frame. -/
theorem not_isPeriodicPt_sixteen {n : Nat} (hpos : 0 < n) (hlt : n < 2040) :
    ¬ Function.IsPeriodicPt sixteen.advance n sixteen.poly := by
  intro hperiod
  have hfresh : sixteen.comesBack sixteen.poly 2039 sixteen.poly = false := by
    decide +kernel
  obtain ⟨m, rfl⟩ := Nat.exists_eq_add_of_le' hpos
  rw [comesBack_of_iterate (by omega) hperiod] at hfresh
  cases hfresh

/-- With its leading term the generator of sixteen bits has four terms. -/
theorem parity_sixteen : parity sixteen.poly = 1 := by
  decide

end ChipChain.Checksum
