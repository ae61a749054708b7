import ChipChain.Proofs.Pll
import Mathlib.Algebra.Order.Round

/-!
# The best setting

The lookup against all legal settings, not only the tabulated ones: it finds nothing only
where every legal setting is too fast, and what it finds is the fastest in rounded hertz
and the preferred one of its exact output (`lookup_optimal`). Rounding keeps the table in
strict order, so the table falls into the settings within a target and those above it, and
its lowest frequency tells for which targets there is a setting (`isSome_lookup_iff_lowest_le`).
-/

namespace ChipChain.Dividers

variable {d e : Dividers} {settings : List Dividers} {target : Frequency}

/-! ## Rounding -/

theorem frequency_eq_round (h : 0 < d.divisor) : (d.frequency.hz : ℤ) = round d.output := by
  have hnonneg : 0 ≤ d.output + 1 / 2 := add_nonneg d.output_nonneg (by norm_num)
  rw [frequency_eq_floor h, Int.natCast_floor_eq_floor hnonneg, round_eq]

theorem Legal.frequency_le (hd : d.Legal) (he : e.Legal) (h : d.output ≤ e.output) :
    d.frequency.hz ≤ e.frequency.hz := by
  rcases h.lt_or_eq with hlt | heq
  · exact (hd.frequency_lt he hlt).le
  · exact (frequency_eq_of_output_eq hd.divisor_pos he.divisor_pos heq).le

/-- Rounding does not bring half a hertz more than it finds. -/
theorem output_le_frequency_add_half (h : 0 < d.divisor) :
    d.output ≤ (d.frequency.hz : ℚ) + 1 / 2 := by
  have hround := abs_le.1 (abs_sub_round d.output)
  rw [← frequency_eq_round h] at hround
  have hhigh := hround.2
  push_cast at hhigh
  linarith

/-! ## The lowest frequency -/

/-- The lowest frequency of the table. -/
def lowest : Frequency :=
  slowest.frequency

theorem Legal.lowest_le (h : d.Legal) : lowest.hz ≤ d.frequency.hz :=
  slowest_legal.frequency_le h h.slowest_le

theorem lowest_isLeast : IsLeast {hz | ∃ d ∈ table, d.frequency.hz = hz} lowest.hz := by
  constructor
  · obtain ⟨d, hd, houtput, -⟩ := exists_mem_table slowest_legal
    have hpos := (legal_of_mem_table hd).divisor_pos
    exact ⟨d, hd, frequency_eq_of_output_eq hpos slowest_legal.divisor_pos houtput⟩
  · rintro _ ⟨d, hd, rfl⟩
    exact (legal_of_mem_table hd).lowest_le

theorem isSome_lookup_iff_lowest_le : (lookup target).isSome ↔ lowest.hz ≤ target.hz := by
  rw [isSome_lookup_iff]
  constructor
  · rintro ⟨d, hd, hle⟩
    exact hd.lowest_le.trans hle
  · intro h
    exact ⟨slowest, slowest_legal, h⟩

theorem isSome_lookup (target : Frequency) :
    (lookup target).isSome = decide (lowest.hz ≤ target.hz) := by
  rw [Bool.eq_iff_iff, isSome_lookup_iff_lowest_le, decide_eq_true_iff]

theorem isNone_lookup (target : Frequency) :
    (lookup target).isNone = decide (target.hz < lowest.hz) := by
  rw [← Option.not_isSome, isSome_lookup, ← decide_not]
  simp only [not_le]

/-! ## The table in two parts -/

theorem table_frequency_pairwise : table.Pairwise fun d e => d.frequency.hz < e.frequency.hz :=
  table_pairwise.imp_of_mem fun hd he =>
    (legal_of_mem_table hd).frequency_lt (legal_of_mem_table he)

theorem exists_partition (h : settings.Pairwise fun d e => d.frequency.hz < e.frequency.hz)
    (target : Frequency) :
    ∃ within above, settings = within ++ above ∧ (∀ e ∈ within, e.frequency.hz ≤ target.hz) ∧
      ∀ e ∈ above, target.hz < e.frequency.hz := by
  induction settings with
  | nil => exact ⟨[], [], rfl, nofun, nofun⟩
  | cons d rest ih =>
      obtain ⟨hd, hrest⟩ := List.pairwise_cons.1 h
      by_cases hwithin : d.frequency.hz ≤ target.hz
      · obtain ⟨within, above, rfl, hlow, hhigh⟩ := ih hrest
        exact ⟨d :: within, above, rfl, List.forall_mem_cons.2 ⟨hwithin, hlow⟩, hhigh⟩
      · have habove := not_le.1 hwithin
        exact ⟨[], d :: rest, rfl, nofun,
          List.forall_mem_cons.2 ⟨habove, fun e he => habove.trans (hd e he)⟩⟩

/-- The lookup finds the last setting before the first one that is too fast. -/
theorem exists_lookup_eq_getLast? (target : Frequency) :
    ∃ within above, table = within ++ above ∧ (∀ e ∈ within, e.frequency.hz ≤ target.hz) ∧
      (∀ e ∈ above, target.hz < e.frequency.hz) ∧ lookup target = within.getLast? := by
  obtain ⟨within, above, htable, hlow, hhigh⟩ := exists_partition table_frequency_pairwise target
  refine ⟨within, above, htable, hlow, hhigh, ?_⟩
  have hwithin : (within.filter fun d => d.frequency.hz ≤ target.hz) = within :=
    List.filter_eq_self.2 fun e he => decide_eq_true (hlow e he)
  have habove : (above.filter fun d => d.frequency.hz ≤ target.hz) = [] :=
    List.filter_eq_nil_iff.2 fun e he => by simpa using hhigh e he
  rw [lookup, htable, List.filter_append, hwithin, habove, List.append_nil]

/-! ## Preference -/

/-- The oscillator, in megahertz. -/
def oscillator (d : Dividers) : ℚ :=
  crystalMhz * d.feedback / d.reference

/-- What counts between settings of one output: the oscillator, then the three dividers. -/
def preference (d : Dividers) : ℚ ×ₗ ℕ ×ₗ ℕ ×ₗ ℕ :=
  toLex (d.oscillator, toLex (d.reference, toLex (d.post1, d.post2)))

theorem Legal.oscillator_eq (h : d.Legal) : d.oscillator = 25 / 2 * d.feedback := by
  rw [oscillator, h.reference_eq, crystalMhz]
  push_cast
  ring

theorem Legal.preference_le (hd : d.Legal) (he : e.Legal) (h : d.rank ≤ e.rank) :
    d.preference ≤ e.preference := by
  refine not_lt.1 fun hlt => h.not_gt ?_
  simp only [preference, Prod.Lex.lt_iff, ofLex_toLex, hd.oscillator_eq, he.oscillator_eq,
    hd.reference_eq, he.reference_eq, lt_self_iff_false, true_and, false_or] at hlt
  have hoscillator : (25 / 2 * (e.feedback : ℚ) < 25 / 2 * d.feedback ↔ e.feedback < d.feedback) ∧
      (25 / 2 * (e.feedback : ℚ) = 25 / 2 * d.feedback ↔ e.feedback = d.feedback) := by
    constructor <;> simp
  rw [hoscillator.1, hoscillator.2] at hlt
  simp only [rank, List.cons_lt_cons_iff, hd.reference_eq, he.reference_eq, lt_self_iff_false,
    true_and, false_or]
  omega

/-! ## The lookup -/

theorem lookup_eq_none_iff :
    lookup target = none ↔ ∀ d : Dividers, d.Legal → target.hz < d.frequency.hz := by
  rw [← Option.not_isSome_iff_eq_none, isSome_lookup_iff]
  simp only [not_exists, not_and, not_le]

/-- Against all legal settings: the lookup finds nothing exactly if all of them, rounded to the
nearest hertz, are above the target. What it finds is legal and within the target; its frequency
is its rounded output; no legal setting lies between it and the target; of the legal settings of
its exact output it has the slowest oscillator, and then the smallest dividers. So its exact
output exceeds the target by half a hertz at most. It stands in the table just before the first
setting above the target. -/
theorem lookup_optimal (target : Frequency) :
    (lookup target = none ↔ ∀ d : Dividers, d.Legal → (target.hz : ℤ) < round d.output) ∧
    (∀ d, lookup target = some d →
      d.Legal ∧ (d.frequency.hz : ℤ) = round d.output ∧ d.frequency.hz ≤ target.hz ∧
      (∀ e : Dividers, e.Legal →
        ¬ ((d.frequency.hz : ℤ) < round e.output ∧ round e.output ≤ (target.hz : ℤ))) ∧
      (∀ e : Dividers, e.Legal → e.output = d.output → d.preference ≤ e.preference) ∧
      d.output ≤ (target.hz : ℚ) + 1 / 2) ∧
    ∃ within above, table = within ++ above ∧ (∀ e ∈ within, e.frequency.hz ≤ target.hz) ∧
      (∀ e ∈ above, target.hz < e.frequency.hz) ∧ lookup target = within.getLast? := by
  refine ⟨?_, fun d hd => ?_, exists_lookup_eq_getLast? target⟩
  · rw [lookup_eq_none_iff]
    refine forall₂_congr fun d hd => ?_
    rw [← frequency_eq_round hd.divisor_pos, Nat.cast_lt]
  · obtain ⟨hlegal, hwithin, hfastest⟩ := lookup_eq_some_iff.1 hd
    refine ⟨hlegal, frequency_eq_round hlegal.divisor_pos, hwithin, ?_, ?_, ?_⟩
    · rintro e he ⟨habove, hewithin⟩
      rw [← frequency_eq_round he.divisor_pos, Nat.cast_lt] at habove
      rw [← frequency_eq_round he.divisor_pos, Nat.cast_le] at hewithin
      have hslower : e.output ≤ d.output := (hfastest e he hewithin).elim le_of_lt fun h => h.1.le
      exact habove.not_ge (he.frequency_le hlegal hslower)
    · intro e he hsame
      have hewithin : e.frequency.hz ≤ target.hz :=
        (he.frequency_le hlegal hsame.le).trans hwithin
      exact hlegal.preference_le he ((hfastest e he hewithin).resolve_left hsame.not_lt).2
    · have hwithin' : (d.frequency.hz : ℚ) ≤ target.hz := Nat.cast_le.2 hwithin
      exact (output_le_frequency_add_half hlegal.divisor_pos).trans (by linarith)

/-- A target of 100.1 MHz gets 100 MHz, and no legal setting lies in between. -/
theorem lookup_optimal_of_untabled :
    lookup ⟨100100000⟩ = some ⟨160, 2, 5, 4⟩ ∧
      (∀ e : Dividers, e.Legal → ¬ (100000000 < round e.output ∧ round e.output ≤ 100100000)) := by
  have hlookup : lookup ⟨100100000⟩ = some ⟨160, 2, 5, 4⟩ :=
    lookup_of_best (by decide) (by decide) (by decide +kernel)
  obtain ⟨-, -, -, hnone, -⟩ := (lookup_optimal ⟨100100000⟩).2.1 _ hlookup
  exact ⟨hlookup, hnone⟩

end ChipChain.Dividers
