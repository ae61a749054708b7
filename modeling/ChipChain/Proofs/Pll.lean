import ChipChain.Pll
import Mathlib.Data.List.Lex
import Mathlib.Data.List.Sort
import Mathlib.Data.Prod.Lex
import Mathlib.Data.Rat.Floor
import Mathlib.Tactic.FieldSimp
import Mathlib.Tactic.Linarith
import Mathlib.Tactic.Ring

/-!
# The divider table

The table holds the best of the legal settings of each exact output, slowest first, so
the lookup finds the fastest legal setting within a target (`lookup_eq_some_iff`). The
gaps of the table bound how far apart the settings of two near targets lie
(`output_le_of_lookup`).
-/

namespace ChipChain.Dividers

variable {d e : Dividers} {settings : List Dividers} {target : Frequency}

/-! ## Legal settings -/

instance (d : Dividers) : Decidable d.Legal :=
  decidable_of_iff
    (160 ≤ d.feedback ∧ d.feedback ≤ 239 ∧ (d.reference = 1 ∨ d.reference = 2) ∧ 1 ≤ d.post2 ∧
      d.post2 ≤ d.post1 ∧ d.post1 ≤ 7 ∧ crystalMhz * d.feedback ≤ maxOscillatorMhz * d.reference ∧
      crystalMhz * d.feedback < maxOutputMhz * d.divisor)
    ⟨fun ⟨h1, h2, h3, h4, h5, h6, h7, h8⟩ => ⟨h1, h2, h3, h4, h5, h6, h7, h8⟩,
      fun ⟨h1, h2, h3, h4, h5, h6, h7, h8⟩ => ⟨h1, h2, h3, h4, h5, h6, h7, h8⟩⟩

theorem mem_candidates_iff : d ∈ candidates ↔ d.Legal := by
  obtain ⟨feedback, reference, post1, post2⟩ := d
  simp only [candidates, List.mem_flatMap, List.mem_filterMap, List.mem_range'_1, List.mem_cons,
    List.not_mem_nil, or_false, Option.ite_none_right_eq_some, Option.some.injEq, Dividers.mk.injEq]
  constructor
  · rintro ⟨r, hr, p1, hp1, p2, hp2, f, hf, ⟨hosc, hout⟩, rfl, rfl, rfl, rfl⟩
    refine ⟨hf.1, ?_, hr, hp2.1, ?_, ?_, hosc, hout⟩ <;> dsimp only <;> omega
  · intro h
    obtain ⟨h1, h2, h3, h4, h5, h6, h7, h8⟩ := h
    dsimp only at h1 h2 h3 h4 h5 h6 h7
    exact ⟨reference, h3, post1, by omega, post2, by omega, feedback, by omega, ⟨h7, h8⟩, rfl, rfl,
      rfl, rfl⟩

theorem Legal.divisor_pos (h : d.Legal) : 0 < d.divisor := by
  have hreference : 0 < d.reference := by
    rcases h.reference_mem with h | h <;> omega
  have hpost1 : 0 < d.post1 := Nat.lt_of_lt_of_le h.post2_pos h.post2_le
  exact Nat.mul_pos (Nat.mul_pos hreference hpost1) h.post2_pos

theorem Legal.reference_eq (h : d.Legal) : d.reference = 2 := by
  have hfeedback := h.feedback_ge
  have hoscillator := h.oscillator_le
  simp only [crystalMhz, maxOscillatorMhz] at hoscillator
  have hreference := h.reference_mem
  omega

theorem Legal.divisor_eq (h : d.Legal) : d.divisor = 2 * (d.post1 * d.post2) := by
  rw [divisor, h.reference_eq, Nat.mul_assoc]

theorem Legal.four_le_divisor (h : d.Legal) : 4 ≤ d.divisor := by
  have hfeedback := h.feedback_ge
  have hout := h.output_lt
  simp only [crystalMhz, maxOutputMhz] at hout
  have hdivisor := h.divisor_eq
  omega

theorem Legal.divisor_le (h : d.Legal) : d.divisor ≤ 98 := by
  have hpost : d.post1 * d.post2 ≤ 7 * 7 := Nat.mul_le_mul h.post1_le (h.post2_le.trans h.post1_le)
  have hdivisor := h.divisor_eq
  omega

/-! ## Outputs -/

/-- The exact output, in hertz. -/
def output (d : Dividers) : ℚ :=
  d.outputNumerator / d.divisor

theorem output_nonneg (d : Dividers) : 0 ≤ d.output :=
  div_nonneg (Nat.cast_nonneg _) (Nat.cast_nonneg _)

theorem output_lt_iff (hd : 0 < d.divisor) (he : 0 < e.divisor) :
    d.output < e.output ↔ d.feedback * e.divisor < e.feedback * d.divisor := by
  have hd' : (0 : ℚ) < d.divisor := Nat.cast_pos.2 hd
  have he' : (0 : ℚ) < e.divisor := Nat.cast_pos.2 he
  rw [output, output, div_lt_div_iff₀ hd' he']
  simp only [outputNumerator, crystalMhz]
  norm_cast
  constructor <;> intro h <;> nlinarith

theorem output_eq_iff (hd : 0 < d.divisor) (he : 0 < e.divisor) :
    d.output = e.output ↔ d.feedback * e.divisor = e.feedback * d.divisor := by
  have hlt := output_lt_iff hd he
  have hgt := output_lt_iff he hd
  constructor
  · intro h
    exact le_antisymm (not_lt.1 (mt hgt.2 h.not_gt)) (not_lt.1 (mt hlt.2 h.not_lt))
  · intro h
    exact le_antisymm (not_lt.1 (mt hgt.1 h.not_gt)) (not_lt.1 (mt hlt.1 h.not_lt))

theorem add_half_div (num : ℕ) {den : ℕ} (h : 0 < den) :
    (num + den / 2) / den = ⌊(num : ℚ) / den + 1 / 2⌋₊ := by
  have hden : (0 : ℚ) < den := Nat.cast_pos.2 h
  have hlow := Nat.div_mul_le_self (num + den / 2) den
  have hhigh := Nat.lt_div_mul_add h (a := num + den / 2)
  generalize (num + den / 2) / den = q at hlow hhigh
  have hlow' : ((2 * (q * den) : ℕ) : ℚ) ≤ (2 * num + den : ℕ) := Nat.cast_le.2 (by omega)
  have hhigh' : ((2 * num + den : ℕ) : ℚ) < (2 * (q * den + den) : ℕ) := Nat.cast_lt.2 (by omega)
  push_cast at hlow' hhigh'
  symm
  rw [Nat.floor_eq_iff (by positivity)]
  constructor
  · rw [div_add_div _ _ hden.ne' two_ne_zero, le_div_iff₀ (by positivity)]
    linarith
  · rw [div_add_div _ _ hden.ne' two_ne_zero, div_lt_iff₀ (by positivity)]
    linarith

theorem frequency_eq_floor (h : 0 < d.divisor) : d.frequency.hz = ⌊d.output + 1 / 2⌋₊ := by
  have hcommon : 0 < Nat.gcd d.feedback d.divisor := Nat.gcd_pos_of_pos_right _ h
  have hfeedback := Nat.div_mul_cancel (Nat.gcd_dvd_left d.feedback d.divisor)
  have hdivisor := Nat.div_mul_cancel (Nat.gcd_dvd_right d.feedback d.divisor)
  have hden : 0 < d.divisor / Nat.gcd d.feedback d.divisor :=
    Nat.div_pos (Nat.gcd_le_right _ h) hcommon
  simp only [frequency]
  rw [add_half_div _ hden, output, outputNumerator]
  generalize Nat.gcd d.feedback d.divisor = common at *
  generalize d.feedback / common = num at *
  generalize d.divisor / common = den at *
  rw [← hfeedback, ← hdivisor, ← mul_assoc]
  congr 2
  push_cast
  have hcommon' : (common : ℚ) ≠ 0 := Nat.cast_ne_zero.2 hcommon.ne'
  rw [mul_div_mul_right _ _ hcommon']

theorem frequency_add_le (hd : 0 < d.divisor) (he : 0 < e.divisor) {n : ℕ}
    (h : d.output + n ≤ e.output) : d.frequency.hz + n ≤ e.frequency.hz := by
  have hnonneg : 0 ≤ d.output + 1 / 2 := add_nonneg d.output_nonneg (by norm_num)
  rw [frequency_eq_floor hd, frequency_eq_floor he, ← Nat.floor_add_natCast hnonneg]
  exact Nat.floor_le_floor (by linarith)

theorem frequency_eq_of_output_eq (hd : 0 < d.divisor) (he : 0 < e.divisor)
    (h : d.output = e.output) : d.frequency.hz = e.frequency.hz := by
  rw [frequency_eq_floor hd, frequency_eq_floor he, h]

/-! ## Order -/

/-- Slower outputs come first, and better ranks within one output. -/
def key (d : Dividers) : ℚ ×ₗ List ℕ :=
  toLex (d.output, d.rank)

theorem key_le_iff : d.key ≤ e.key ↔ d.output < e.output ∨ d.output = e.output ∧ d.rank ≤ e.rank :=
  Prod.Lex.le_iff

theorem output_le_of_key_le (h : d.key ≤ e.key) : d.output ≤ e.output :=
  (key_le_iff.1 h).elim le_of_lt fun h => h.1.le

theorem precedes_iff (hd : 0 < d.divisor) (he : 0 < e.divisor) :
    d.precedes e ↔ d.key ≤ e.key := by
  have hrank : (!e.rank.lex d.rank fun m n => m < n) = true ↔ d.rank ≤ e.rank := by
    rw [Bool.not_eq_true', ← Bool.not_eq_true, List.lex_eq_true_iff_lex]
    simp only [decide_eq_true_eq]
    change ¬ e.rank < d.rank ↔ d.rank ≤ e.rank
    exact not_lt
  rw [key_le_iff, output_lt_iff hd he, output_eq_iff hd he, ← hrank]
  simp [precedes]

/-! ## The table -/

theorem pairwise_sorted :
    (candidates.mergeSort precedes).Pairwise fun d e => d.key ≤ e.key := by
  -- On legal settings the order of the table is the order of the keys, and that one is total.
  have hagree : ∀ d ∈ candidates, ∀ e ∈ candidates, d.precedes e = decide (d.key ≤ e.key) := by
    intro d hd e he
    have hiff := precedes_iff (mem_candidates_iff.1 hd).divisor_pos
      (mem_candidates_iff.1 he).divisor_pos
    rw [Bool.eq_iff_iff, hiff, decide_eq_true_iff]
  have hsort : candidates.mergeSort precedes =
      candidates.mergeSort fun d e => decide (d.key ≤ e.key) := by
    have hmap := List.map_mergeSort (f := id) (s := fun d e => decide (key d ≤ key e)) hagree
    rwa [List.map_id, List.map_id] at hmap
  rw [hsort]
  have htrans (c d e : Dividers) (hcd : decide (c.key ≤ d.key)) (hde : decide (d.key ≤ e.key)) :
      decide (c.key ≤ e.key) := by
    rw [decide_eq_true_iff] at hcd hde ⊢
    exact hcd.trans hde
  have htotal (d e : Dividers) : decide (d.key ≤ e.key) || decide (e.key ≤ d.key) := by
    rw [Bool.or_eq_true, decide_eq_true_iff, decide_eq_true_iff]
    exact le_total d.key e.key
  simpa using List.pairwise_mergeSort htrans htotal candidates

theorem firstOfRuns_sublist (settings : List Dividers) :
    (firstOfRuns settings).Sublist settings := by
  fun_induction firstOfRuns settings with
  | case1 => exact List.Sublist.refl _
  | case2 d => exact List.Sublist.refl _
  | case3 d e rest _ ih => exact ih.trans ((List.sublist_cons_self e rest).cons_cons d)
  | case4 d e rest _ ih => exact ih.cons_cons d

section

variable (hsorted : settings.Pairwise fun d e => d.key ≤ e.key)
  (hpos : ∀ d ∈ settings, 0 < d.divisor)

include hsorted hpos

theorem exists_mem_firstOfRuns (hd : d ∈ settings) :
    ∃ e ∈ firstOfRuns settings, e.output = d.output ∧ e.key ≤ d.key := by
  fun_induction firstOfRuns settings generalizing d with
  | case1 => exact absurd hd List.not_mem_nil
  | case2 only => exact ⟨d, hd, rfl, le_refl _⟩
  | case3 first second rest hsame ih =>
      have hsub := (List.sublist_cons_self second rest).cons_cons first
      have hrest (d : Dividers) := @ih d (hsorted.sublist hsub) fun d hd => hpos d (hsub.subset hd)
      by_cases hsecond : d = second
      · subst hsecond
        have houtput : first.output = d.output := by
          rw [output_eq_iff (hpos first (by simp)) (hpos d (by simp))]
          simpa [sameOutput] using hsame
        obtain ⟨e, he, heq, hle⟩ := hrest first List.mem_cons_self
        exact ⟨e, he, heq.trans houtput, hle.trans (List.rel_of_pairwise_cons hsorted (by simp))⟩
      · exact hrest d (by simpa [hsecond] using hd)
  | case4 first second rest hdiffer ih =>
      rcases List.mem_cons.1 hd with rfl | hd
      · exact ⟨d, List.mem_cons_self, rfl, le_refl _⟩
      · have hpos' : ∀ d ∈ second :: rest, 0 < d.divisor := fun d hd =>
          hpos d (List.mem_cons_of_mem _ hd)
        obtain ⟨e, he, hrest⟩ := ih hsorted.of_cons hpos' hd
        exact ⟨e, List.mem_cons_of_mem _ he, hrest⟩

theorem firstOfRuns_pairwise : (firstOfRuns settings).Pairwise fun d e => d.output < e.output := by
  fun_induction firstOfRuns settings with
  | case1 => exact List.Pairwise.nil
  | case2 only => exact List.pairwise_singleton _ _
  | case3 first second rest _ ih =>
      have hsub := (List.sublist_cons_self second rest).cons_cons first
      exact ih (hsorted.sublist hsub) fun d hd => hpos d (hsub.subset hd)
  | case4 first second rest hdiffer ih =>
      have hpos' : ∀ d ∈ second :: rest, 0 < d.divisor := fun d hd =>
        hpos d (List.mem_cons_of_mem _ hd)
      refine List.Pairwise.cons (fun d hd => ?_) (ih hsorted.of_cons hpos')
      have hne : first.output ≠ second.output := by
        rw [Ne, output_eq_iff (hpos first (by simp)) (hpos second (by simp))]
        simpa [sameOutput] using hdiffer
      have hle : first.output ≤ second.output :=
        output_le_of_key_le (List.rel_of_pairwise_cons hsorted (by simp))
      have hrest : second.output ≤ d.output := by
        rcases List.mem_cons.1 ((firstOfRuns_sublist _).subset hd) with rfl | hmem
        · exact le_refl _
        · exact output_le_of_key_le (List.rel_of_pairwise_cons hsorted.of_cons hmem)
      exact (lt_of_le_of_ne hle hne).trans_le hrest

end

theorem mem_sorted_iff : d ∈ candidates.mergeSort precedes ↔ d.Legal :=
  List.mem_mergeSort.trans mem_candidates_iff

theorem divisor_pos_of_mem_sorted (h : d ∈ candidates.mergeSort precedes) : 0 < d.divisor :=
  (mem_sorted_iff.1 h).divisor_pos

theorem legal_of_mem_table (h : d ∈ table) : d.Legal :=
  mem_sorted_iff.1 ((firstOfRuns_sublist _).subset h)

theorem table_pairwise : table.Pairwise fun d e => d.output < e.output :=
  firstOfRuns_pairwise pairwise_sorted fun _ => divisor_pos_of_mem_sorted

theorem exists_mem_table (h : d.Legal) : ∃ e ∈ table, e.output = d.output ∧ e.key ≤ d.key :=
  exists_mem_firstOfRuns pairwise_sorted (fun _ => divisor_pos_of_mem_sorted) (mem_sorted_iff.2 h)

/-! ## The lookup -/

theorem getLast?_eq_some_iff_of_pairwise (h : settings.Pairwise fun d e => d.output < e.output) :
    settings.getLast? = some d ↔ d ∈ settings ∧ ∀ e ∈ settings, e = d ∨ e.output < d.output := by
  constructor
  · intro hlast
    obtain ⟨before, rfl⟩ := List.getLast?_eq_some_iff.1 hlast
    have hbefore := (List.pairwise_append.1 h).2.2
    refine ⟨by simp, fun e he => ?_⟩
    rcases List.mem_append.1 he with he | he
    · exact .inr (hbefore e he d List.mem_cons_self)
    · exact .inl (List.mem_singleton.1 he)
  · rintro ⟨hd, hlast⟩
    obtain ⟨before, after, rfl⟩ := List.append_of_mem hd
    cases after with
    | nil => exact List.getLast?_concat
    | cons e after =>
        have hde : d.output < e.output :=
          List.rel_of_pairwise_cons (List.pairwise_append.1 h).2.1 List.mem_cons_self
        rcases hlast e (by simp) with rfl | hed
        · exact absurd hde (lt_irrefl _)
        · exact absurd hde hed.not_gt

theorem rank_injective (h : d.rank = e.rank) : d = e := by
  cases d
  cases e
  simp_all [rank]

theorem eq_of_mem_table (hd : d ∈ table) (he : e ∈ table) (h : d.output = e.output) : d = e := by
  have hnodup : (table.map output).Nodup := List.pairwise_map.2 (table_pairwise.imp ne_of_lt)
  exact List.inj_on_of_nodup_map hnodup hd he h

/-- The lookup finds the fastest legal setting within the target, and of one output the best. -/
theorem lookup_eq_some_iff : lookup target = some d ↔
    d.Legal ∧ d.frequency.hz ≤ target.hz ∧ ∀ e : Dividers, e.Legal → e.frequency.hz ≤ target.hz →
      e.output < d.output ∨ e.output = d.output ∧ d.rank ≤ e.rank := by
  rw [lookup, getLast?_eq_some_iff_of_pairwise (table_pairwise.filter _)]
  simp only [List.mem_filter, decide_eq_true_iff]
  constructor
  · rintro ⟨⟨hd, hwithin⟩, hlast⟩
    refine ⟨legal_of_mem_table hd, hwithin, fun e he hewithin => ?_⟩
    obtain ⟨best, hbest, houtput, hkey⟩ := exists_mem_table he
    have hbestwithin : best.frequency.hz ≤ target.hz := by
      rwa [frequency_eq_of_output_eq (legal_of_mem_table hbest).divisor_pos he.divisor_pos houtput]
    rcases hlast best ⟨hbest, hbestwithin⟩ with rfl | hlt
    · have hrank := (key_le_iff.1 hkey).resolve_left houtput.not_lt
      exact .inr ⟨houtput.symm, hrank.2⟩
    · exact .inl (houtput ▸ hlt)
  · rintro ⟨hd, hwithin, hfastest⟩
    obtain ⟨best, hbest, houtput, hkey⟩ := exists_mem_table hd
    have hfrequency := frequency_eq_of_output_eq (legal_of_mem_table hbest).divisor_pos
      hd.divisor_pos houtput
    have hle := ((key_le_iff.1 hkey).resolve_left houtput.not_lt).2
    have hge := ((hfastest best (legal_of_mem_table hbest) (hfrequency ▸ hwithin)).resolve_left
      houtput.not_lt).2
    obtain rfl := rank_injective (le_antisymm hle hge)
    refine ⟨⟨hbest, hwithin⟩, fun e he => ?_⟩
    rcases hfastest e (legal_of_mem_table he.1) he.2 with hlt | ⟨heq, -⟩
    · exact .inr hlt
    · exact .inl (eq_of_mem_table he.1 hbest heq)

/-- The same for settings that can be computed with. -/
theorem lookup_of_best (hd : d.Legal) (hwithin : d.frequency.hz ≤ target.hz)
    (hbest : ∀ e ∈ candidates, e.frequency.hz ≤ target.hz →
      e.feedback * d.divisor < d.feedback * e.divisor ∨
        e.feedback * d.divisor = d.feedback * e.divisor ∧ d.precedes e) :
    lookup target = some d := by
  refine lookup_eq_some_iff.2 ⟨hd, hwithin, fun e he hewithin => ?_⟩
  rcases hbest e (mem_candidates_iff.2 he) hewithin with hlt | ⟨heq, hprecedes⟩
  · exact .inl ((output_lt_iff he.divisor_pos hd.divisor_pos).2 hlt)
  · have hsame := (output_eq_iff he.divisor_pos hd.divisor_pos).2 heq
    have hkey := (precedes_iff hd.divisor_pos he.divisor_pos).1 hprecedes
    exact .inr ⟨hsame, ((key_le_iff.1 hkey).resolve_left hsame.symm.not_lt).2⟩

/-- The setting for the first stop of a climb from where chips boot. -/
theorem lookup_firstStop : lookup ⟨62500000⟩ = some ⟨175, 2, 7, 5⟩ :=
  lookup_of_best (by decide) (by decide) (by decide +kernel)

theorem isSome_lookup_iff :
    (lookup target).isSome ↔ ∃ d : Dividers, d.Legal ∧ d.frequency.hz ≤ target.hz := by
  constructor
  · intro h
    obtain ⟨d, hd⟩ := Option.isSome_iff_exists.1 h
    obtain ⟨hlegal, hwithin, -⟩ := lookup_eq_some_iff.1 hd
    exact ⟨d, hlegal, hwithin⟩
  · rintro ⟨d, hd, hwithin⟩
    obtain ⟨best, hbest, houtput, -⟩ := exists_mem_table hd
    have hmem : best ∈ table.filter fun d => d.frequency.hz ≤ target.hz := by
      rw [List.mem_filter, frequency_eq_of_output_eq (legal_of_mem_table hbest).divisor_pos
        hd.divisor_pos houtput]
      exact ⟨hbest, decide_eq_true hwithin⟩
    rw [lookup, List.getLast?_eq_some_getLast (List.ne_nil_of_mem hmem)]
    rfl

/-- Outputs that differ lie at least a hertz apart. -/
theorem Legal.output_add_one_le (hd : d.Legal) (he : e.Legal) (h : d.output < e.output) :
    d.output + 1 ≤ e.output := by
  have hdpos : (0 : ℚ) < d.divisor := Nat.cast_pos.2 hd.divisor_pos
  have hepos : (0 : ℚ) < e.divisor := Nat.cast_pos.2 he.divisor_pos
  have hsmall : d.divisor * e.divisor ≤ 98 * 98 := Nat.mul_le_mul hd.divisor_le he.divisor_le
  have hnext := (output_lt_iff hd.divisor_pos he.divisor_pos).1 h
  have hcast : d.feedback * e.divisor * 25000000 + d.divisor * e.divisor ≤
      e.feedback * d.divisor * 25000000 := by omega
  have hcast' : ((d.feedback * e.divisor * 25000000 + d.divisor * e.divisor : ℕ) : ℚ) ≤
      (e.feedback * d.divisor * 25000000 : ℕ) := Nat.cast_le.2 hcast
  rw [output, output, div_add' _ _ _ hdpos.ne', div_le_div_iff₀ hdpos hepos]
  simp only [outputNumerator, crystalMhz]
  push_cast at hcast' ⊢
  linarith

theorem Legal.frequency_lt (hd : d.Legal) (he : e.Legal) (h : d.output < e.output) :
    d.frequency.hz < e.frequency.hz :=
  frequency_add_le (n := 1) hd.divisor_pos he.divisor_pos
    (by exact_mod_cast hd.output_add_one_le he h)

/-- Looked up at its own rounded frequency, a setting finds itself or a better one of its output. -/
theorem output_of_lookup_frequency (hd : d.Legal) (h : lookup d.frequency = some e) :
    e.output = d.output := by
  obtain ⟨he, hwithin, hfastest⟩ := lookup_eq_some_iff.1 h
  rcases hfastest d hd (le_refl _) with hlt | ⟨heq, -⟩
  · exact absurd hwithin (hd.frequency_lt he hlt).not_ge
  · exact heq.symm

/-! ## Gaps -/

def slowest : Dividers :=
  ⟨160, 2, 7, 7⟩

theorem slowest_legal : slowest.Legal := by
  decide

theorem Legal.slowest_le (h : d.Legal) : slowest.output ≤ d.output := by
  have hdivisor := h.divisor_le
  have hfeedback : 98 * 160 ≤ 98 * d.feedback := Nat.mul_le_mul_left _ h.feedback_ge
  refine not_lt.1 (mt (output_lt_iff h.divisor_pos (by decide)).1 ?_)
  have hslowest : slowest.divisor = 98 := rfl
  rw [hslowest, slowest]
  dsimp only
  omega

/-- How many steps of the feedback divider make at least a quarter of the crystal. -/
def quarter (d : Dividers) : Nat :=
  (d.divisor + 3) / 4

/-- The fastest setting with these post-dividers that is slower by a quarter of the crystal. -/
def quarterBelow (d : Dividers) (post1 post2 : Nat) : Dividers :=
  ⟨(4 * d.feedback - d.divisor) * (2 * post1 * post2) / (4 * d.divisor), 2, post1, post2⟩

/-- Where the feedback divider cannot go down that far, other post-dividers take over. -/
theorem exists_quarterBelow : ∀ e ∈ candidates, e.feedback < 160 + e.quarter →
    578 * e.divisor < 294 * e.feedback →
    ∃ post1 ∈ List.range' 1 7, ∃ post2 ∈ List.range' 1 post1,
      160 ≤ (e.quarterBelow post1 post2).feedback ∧ (e.quarterBelow post1 post2).feedback ≤ 239 ∧
        (e.quarterBelow post1 post2).feedback < 60 * (2 * post1 * post2) ∧
        3 * e.feedback * (2 * post1 * post2) ≤
          (3 * (e.quarterBelow post1 post2).feedback + 2 * post1 * post2) * e.divisor := by
  decide +kernel

theorem output_add_quarter_le_iff (hd : 0 < d.divisor) (he : 0 < e.divisor) :
    d.output + 6250000 ≤ e.output ↔
      (4 * d.feedback + d.divisor) * e.divisor ≤ 4 * e.feedback * d.divisor := by
  have hd' : (0 : ℚ) < d.divisor := Nat.cast_pos.2 hd
  have he' : (0 : ℚ) < e.divisor := Nat.cast_pos.2 he
  rw [output, output, div_add' _ _ _ hd'.ne', div_le_div_iff₀ hd' he', ← Nat.cast_le (α := ℚ)]
  simp only [outputNumerator, crystalMhz]
  push_cast
  constructor <;> intro h <;> linarith

theorem output_le_add_third_iff (hd : 0 < d.divisor) (he : 0 < e.divisor) :
    e.output ≤ d.output + 25000000 / 3 ↔
      3 * e.feedback * d.divisor ≤ (3 * d.feedback + d.divisor) * e.divisor := by
  have hd' : (0 : ℚ) < d.divisor := Nat.cast_pos.2 hd
  have he' : (0 : ℚ) < e.divisor := Nat.cast_pos.2 he
  rw [output, output, div_add' _ _ _ hd'.ne', div_le_div_iff₀ he' hd', ← Nat.cast_le (α := ℚ)]
  simp only [outputNumerator, crystalMhz]
  push_cast
  constructor <;> intro h <;> linarith

theorem legal_of_bounds {feedback post1 post2 : Nat} (hlow : 160 ≤ feedback)
    (hhigh : feedback ≤ 239) (hpos : 1 ≤ post2) (hle : post2 ≤ post1) (hseven : post1 ≤ 7)
    (hout : feedback < 60 * (2 * post1 * post2)) : Legal ⟨feedback, 2, post1, post2⟩ where
  feedback_ge := hlow
  feedback_le := hhigh
  reference_mem := .inr rfl
  post2_pos := hpos
  post2_le := hle
  post1_le := hseven
  oscillator_le := by
    dsimp only [crystalMhz, maxOscillatorMhz]
    omega
  output_lt := by
    dsimp only [crystalMhz, maxOutputMhz, divisor]
    omega

/-- Any setting but the slowest ones has another one below it that is slower by at least a quarter
and at most a third of the crystal. -/
theorem Legal.exists_slower (he : e.Legal) (hfast : slowest.output + 25000000 / 3 < e.output) :
    ∃ d : Dividers, d.Legal ∧ d.output + 6250000 ≤ e.output ∧
      e.output ≤ d.output + 25000000 / 3 := by
  have hfeedback := he.feedback_ge
  have hfour := he.four_le_divisor
  have heven := he.divisor_eq
  have hquarter : e.divisor ≤ 4 * e.quarter ∧ 3 * e.quarter ≤ e.divisor := by
    rw [quarter]
    omega
  by_cases hroom : e.feedback < 160 + e.quarter
  case neg =>
    let d : Dividers := ⟨e.feedback - e.quarter, 2, e.post1, e.post2⟩
    have hsame : d.divisor = e.divisor := by
      rw [divisor, divisor, he.reference_eq]
    have hout : e.feedback < 60 * e.divisor := by
      have hlt := he.output_lt
      simp only [crystalMhz, maxOutputMhz] at hlt
      omega
    have hd : d.Legal := by
      have hhigh := he.feedback_le
      refine legal_of_bounds (by omega) (by omega) he.post2_pos he.post2_le he.post1_le ?_
      rw [Nat.mul_assoc 2, ← heven]
      omega
    refine ⟨d, hd, ?_, ?_⟩
    · rw [output_add_quarter_le_iff hd.divisor_pos he.divisor_pos, hsame]
      refine Nat.mul_le_mul_right _ ?_
      dsimp only [d]
      omega
    · rw [output_le_add_third_iff hd.divisor_pos he.divisor_pos, hsame]
      refine Nat.mul_le_mul_right _ ?_
      dsimp only [d]
      omega
  case pos =>
    have hfast' : 578 * e.divisor < 294 * e.feedback := by
      have hnot := mt (output_le_add_third_iff (by decide) he.divisor_pos).2 hfast.not_ge
      have hslowest : slowest.divisor = 98 ∧ slowest.feedback = 160 := ⟨rfl, rfl⟩
      rw [hslowest.1, hslowest.2] at hnot
      omega
    obtain ⟨post1, hpost1, post2, hpost2, hlow, hhigh, hout, hthird⟩ :=
      exists_quarterBelow e (mem_candidates_iff.2 he) hroom hfast'
    rw [List.mem_range'_1] at hpost1 hpost2
    have hd : (e.quarterBelow post1 post2).Legal :=
      legal_of_bounds hlow hhigh (by omega) (by omega) (by omega) hout
    have hdivisor : (e.quarterBelow post1 post2).divisor = 2 * post1 * post2 := rfl
    refine ⟨e.quarterBelow post1 post2, hd, ?_, ?_⟩
    · have hfloor : (e.quarterBelow post1 post2).feedback * (4 * e.divisor) ≤
          (4 * e.feedback - e.divisor) * (2 * post1 * post2) := Nat.div_mul_le_self _ _
      have hroom' : e.divisor * (2 * post1 * post2) ≤ 4 * e.feedback * (2 * post1 * post2) :=
        Nat.mul_le_mul_right _ (by omega)
      rw [output_add_quarter_le_iff hd.divisor_pos he.divisor_pos, hdivisor]
      rw [Nat.sub_mul] at hfloor
      calc (4 * (e.quarterBelow post1 post2).feedback + 2 * post1 * post2) * e.divisor
          = (e.quarterBelow post1 post2).feedback * (4 * e.divisor) +
              e.divisor * (2 * post1 * post2) := by ring
        _ ≤ 4 * e.feedback * (2 * post1 * post2) := by omega
    · rwa [output_le_add_third_iff hd.divisor_pos he.divisor_pos, hdivisor]

/-- The settings of two targets at most a quarter of the crystal apart lie at most a third of it
apart. -/
theorem output_le_of_lookup {target' : Frequency} (hd : lookup target = some d)
    (he : lookup target' = some e) (hnear : target'.hz ≤ target.hz + 6250000) :
    e.output ≤ d.output + 25000000 / 3 := by
  obtain ⟨hdlegal, -, hfastest⟩ := lookup_eq_some_iff.1 hd
  obtain ⟨helegal, hewithin, -⟩ := lookup_eq_some_iff.1 he
  by_cases hfast : slowest.output + 25000000 / 3 < e.output
  · obtain ⟨c, hc, hquarter, hthird⟩ := helegal.exists_slower hfast
    have hcwithin : c.frequency.hz ≤ target.hz := by
      have hround := frequency_add_le (n := 6250000) hc.divisor_pos helegal.divisor_pos
        (by exact_mod_cast hquarter)
      omega
    have hcd : c.output ≤ d.output := (hfastest c hc hcwithin).elim le_of_lt fun h => h.1.le
    linarith
  · have hslowest := hdlegal.slowest_le
    linarith

end ChipChain.Dividers
