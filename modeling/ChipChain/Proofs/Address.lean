import Mathlib.Order.Interval.Finset.Nat
import ChipChain.Address

/-!
# Address plans

Which chains have a plan, what its addresses are, and what part of the address space the even
split leaves each chip. Plans exist exactly where the last address is a byte, and the even split
is the widest one whose blocks fit the space (`plans_fit`).
-/

namespace ChipChain

namespace AddressPlan

variable {chips interval : Nat}

/-! ## Plans with an interval -/

/-- There are chips, they are apart, and the last of them still has a byte for an address. -/
def Fits (chips interval : Nat) : Prop :=
  1 ≤ chips ∧ 1 ≤ interval ∧ (chips - 1) * interval ≤ 255

/-- One address for each chip, at the first multiples of the interval. -/
structure Spaced (plan : AddressPlan) (chips interval : Nat) : Prop where
  interval_eq : plan.interval = interval
  addresses_eq : plan.addresses.map UInt8.toNat = (List.range chips).map (· * interval)

theorem withInterval_eq_ok (h : Fits chips interval) :
    withInterval chips interval =
      .ok ⟨interval, (List.range chips).map fun k => UInt8.ofNat (k * interval)⟩ := by
  obtain ⟨hchips, hinterval, hlast⟩ := h
  rw [withInterval, if_neg (by omega)]

theorem withInterval_eq_error (h : ¬ Fits chips interval) :
    withInterval chips interval = .error ⟨chips, interval⟩ := by
  have hnone : chips = 0 ∨ interval = 0 ∨ 255 < (chips - 1) * interval := by
    unfold Fits at h
    omega
  rw [withInterval, if_pos hnone]

theorem withInterval_isOk_iff :
    (∃ plan, withInterval chips interval = .ok plan) ↔ Fits chips interval := by
  constructor
  · rintro ⟨plan, hplan⟩
    by_contra hnone
    rw [withInterval_eq_error hnone] at hplan
    cases hplan
  · intro h
    exact ⟨_, withInterval_eq_ok h⟩

/-- The product that is compared with the last address does not outgrow thirty-two bits, whatever
sixteen bits the two numbers have. -/
theorem toNat_last {chips interval : UInt16} (h : chips ≠ 0) :
    ((chips.toUInt32 - 1) * interval.toUInt32).toNat = (chips.toNat - 1) * interval.toNat := by
  have hpos : chips.toNat ≠ 0 := fun hzero => h (UInt16.toNat_inj.1 hzero)
  have hpred : (chips.toUInt32 - 1).toNat = chips.toNat - 1 := by
    have hle : 1 ≤ chips.toUInt32 := by
      rw [UInt32.le_iff_toNat_le, UInt16.toNat_toUInt32]
      exact Nat.one_le_iff_ne_zero.2 hpos
    rw [UInt32.toNat_sub_of_le _ _ hle, UInt16.toNat_toUInt32]
    rfl
  have hbound : (chips.toNat - 1) * interval.toNat ≤ 65535 * 65535 :=
    Nat.mul_le_mul (by have := chips.toNat_lt; omega) (by have := interval.toNat_lt; omega)
  rw [UInt32.toNat_mul, hpred, UInt16.toNat_toUInt32]
  exact Nat.mod_eq_of_lt (by omega)

theorem toNat_addresses (h : Fits chips interval) :
    ((List.range chips).map fun k => UInt8.ofNat (k * interval)).map UInt8.toNat =
      (List.range chips).map (· * interval) := by
  rw [List.map_map]
  apply List.map_congr_left
  intro k hk
  have hk : k ≤ chips - 1 := by
    have := List.mem_range.1 hk
    omega
  have hmul := Nat.le_trans (Nat.mul_le_mul_right interval hk) h.2.2
  exact UInt8.toNat_ofNat_of_lt' (Nat.lt_succ_of_le hmul)

variable {plan : AddressPlan}

theorem spaced_of_withInterval (h : withInterval chips interval = .ok plan) :
    plan.Spaced chips interval := by
  have hfits := withInterval_isOk_iff.1 ⟨plan, h⟩
  rw [withInterval_eq_ok hfits] at h
  cases h
  exact ⟨rfl, toNat_addresses hfits⟩

namespace Spaced

theorem apart (h : plan.Spaced chips interval) :
    plan.addresses.Pairwise fun a b => a.toNat + plan.interval ≤ b.toNat := by
  have hmultiples : (plan.addresses.map UInt8.toNat).Pairwise (· + interval ≤ ·) := by
    rw [h.addresses_eq, List.pairwise_map]
    refine List.pairwise_lt_range.imp ?_
    intro k l hkl
    rw [← Nat.succ_mul]
    exact Nat.mul_le_mul_right interval hkl
  rw [List.pairwise_map] at hmultiples
  rwa [h.interval_eq]

theorem ascending (h : plan.Spaced chips interval) (hpos : 1 ≤ interval) :
    plan.addresses.Pairwise (· < ·) := by
  refine h.apart.imp ?_
  intro a b hab
  rw [h.interval_eq] at hab
  exact UInt8.lt_iff_toNat_lt.2 (by omega)

theorem exists_multiple (h : plan.Spaced chips interval) {address : UInt8}
    (hmem : address ∈ plan.addresses) : ∃ k < chips, address.toNat = k * interval := by
  have hmultiple : address.toNat ∈ (List.range chips).map (· * interval) := by
    rw [← h.addresses_eq]
    exact List.mem_map_of_mem hmem
  obtain ⟨k, hk, heq⟩ := List.mem_map.1 hmultiple
  exact ⟨k, List.mem_range.1 hk, heq.symm⟩

end Spaced

/-! ## The even split -/

theorem last_le (hpos : 0 < chips) (hle : chips ≤ 256) : (chips - 1) * (256 / chips) ≤ 255 := by
  have hspace := Nat.mul_div_le 256 chips
  have hinterval := Nat.div_pos hle hpos
  rw [Nat.sub_one_mul]
  omega

theorem fits_even_iff : Fits chips (256 / chips) ↔ 1 ≤ chips ∧ chips ≤ 256 := by
  constructor
  · rintro ⟨hpos, hinterval, -⟩
    refine ⟨hpos, ?_⟩
    by_contra hmany
    rw [Nat.div_eq_of_lt (by omega)] at hinterval
    omega
  · rintro ⟨hpos, hle⟩
    exact ⟨hpos, Nat.div_pos hle hpos, last_le hpos hle⟩

theorem evenlySpaced_eq_ok (hpos : 0 < chips) (hle : chips ≤ 256) :
    evenlySpaced chips =
      .ok ⟨256 / chips, (List.range chips).map fun k => UInt8.ofNat (k * (256 / chips))⟩ :=
  withInterval_eq_ok (fits_even_iff.2 ⟨hpos, hle⟩)

theorem evenlySpaced_eq_error (h : chips = 0 ∨ 256 < chips) :
    evenlySpaced chips = .error ⟨chips, 256 / chips⟩ := by
  refine withInterval_eq_error ?_
  rw [fits_even_iff]
  omega

theorem addressInterval_of_plan (h : evenlySpaced chips = .ok plan) :
    addressInterval chips = plan.interval := by
  have hpos := (withInterval_isOk_iff.1 ⟨plan, h⟩).1
  rw [addressInterval, Nat.max_eq_left hpos, h]

theorem addressInterval_eq (hpos : 1 ≤ chips) (hle : chips ≤ 256) :
    addressInterval chips = 256 / chips := by
  rw [addressInterval_of_plan (evenlySpaced_eq_ok hpos hle)]

/-- The addresses from a chip's own up to where the next chip may begin. -/
def block (plan : AddressPlan) (address : UInt8) : Finset Nat :=
  Finset.Ico address.toNat (address.toNat + plan.interval)

theorem blocks_disjoint (h : plan.Spaced chips interval) :
    plan.addresses.Pairwise fun a b => Disjoint (plan.block a) (plan.block b) := by
  refine h.apart.imp ?_
  intro a b hab
  rw [block, block, Finset.disjoint_left]
  intro n hn hn'
  have hbelow := (Finset.mem_Ico.1 hn).2
  have habove := (Finset.mem_Ico.1 hn').1
  omega

theorem block_subset (h : plan.Spaced chips interval) (hspace : chips * interval ≤ 256)
    {address : UInt8} (hmem : address ∈ plan.addresses) :
    plan.block address ⊆ Finset.range 256 := by
  obtain ⟨k, hk, haddress⟩ := h.exists_multiple hmem
  have hend : (k + 1) * interval ≤ 256 := Nat.le_trans (Nat.mul_le_mul_right interval hk) hspace
  rw [Nat.succ_mul] at hend
  intro n hn
  have hbelow := (Finset.mem_Ico.1 hn).2
  rw [haddress, h.interval_eq] at hbelow
  exact Finset.mem_range.2 (by omega)

/-- A plan with an interval exists exactly if the last address is a byte; its addresses are then
the multiples of the interval, in ascending order. The even split exists for one chip up to 256,
it has the widest interval at which as many blocks fit the address space, its blocks are apart and
within that space, and the nonce space is divided by the same interval. -/
theorem plans_fit (chips interval : Nat) :
    ((∃ plan, withInterval chips interval = .ok plan) ↔
      1 ≤ chips ∧ 1 ≤ interval ∧ (chips - 1) * interval ≤ 255) ∧
    (∀ plan, withInterval chips interval = .ok plan →
      plan.Spaced chips interval ∧ plan.addresses.Pairwise (· < ·) ∧ plan.addresses.Nodup) ∧
    (∀ c i : UInt16, c ≠ 0 →
      ((c.toUInt32 - 1) * i.toUInt32).toNat = (c.toNat - 1) * i.toNat) ∧
    ((∃ plan, evenlySpaced chips = .ok plan) ↔ 1 ≤ chips ∧ chips ≤ 256) ∧
    ∀ plan, evenlySpaced chips = .ok plan →
      plan.Spaced chips (256 / chips) ∧
      (∀ i, i ≤ plan.interval ↔ chips * i ≤ 256) ∧
      plan.addresses.Pairwise (fun a b => Disjoint (plan.block a) (plan.block b)) ∧
      (∀ address ∈ plan.addresses, plan.block address ⊆ Finset.range 256) ∧
      addressInterval chips = plan.interval := by
  refine ⟨withInterval_isOk_iff, ?_, fun c i hc => toNat_last hc,
    withInterval_isOk_iff.trans fits_even_iff, ?_⟩
  · intro plan hplan
    have hspaced := spaced_of_withInterval hplan
    have hascending := hspaced.ascending (withInterval_isOk_iff.1 ⟨plan, hplan⟩).2.1
    exact ⟨hspaced, hascending, hascending.imp fun h => UInt8.ne_of_lt h⟩
  · intro plan hplan
    have hspaced := spaced_of_withInterval hplan
    have hpos := (withInterval_isOk_iff.1 ⟨plan, hplan⟩).1
    have hwidest : ∀ i, i ≤ plan.interval ↔ chips * i ≤ 256 := by
      intro i
      rw [hspaced.interval_eq, Nat.le_div_iff_mul_le hpos, Nat.mul_comm]
    refine ⟨hspaced, hwidest, blocks_disjoint hspaced, ?_, addressInterval_of_plan hplan⟩
    intro address hmem
    exact block_subset hspaced (Nat.mul_div_le 256 chips) hmem

/-- Six chips leave four addresses over. -/
example : evenlySpaced 6 = .ok ⟨42, [0, 42, 84, 126, 168, 210]⟩ := by
  decide

end AddressPlan

end ChipChain
