import ChipChain.Bytes

/-!
# Chip addresses

Addresses for a chain of chips, spread over the byte-wide address space.
-/

namespace ChipChain

/-- A chain of `chips` chips at this interval does not fit the address space. -/
structure AddressOverflow where
  chips : Nat
  interval : Nat
  deriving DecidableEq, Repr

def AddressOverflow.message (e : AddressOverflow) : String :=
  s!"address overflow: {e.chips} chips with interval {e.interval} do not fit 0x00..=0xFF"

/-- Evenly spaced addresses, one for each chip of a chain. -/
structure AddressPlan where
  interval : Nat
  addresses : List UInt8
  deriving DecidableEq, Repr

namespace AddressPlan

/-- Addresses `0, i, 2 i, …`, provided that there are chips, that they are apart, and that the last
address is a byte. -/
def withInterval (chips interval : Nat) : Except AddressOverflow AddressPlan :=
  if chips = 0 ∨ interval = 0 ∨ 255 < (chips - 1) * interval then .error ⟨chips, interval⟩
  else .ok ⟨interval, (List.range chips).map fun k => UInt8.ofNat (k * interval)⟩

/-- The widest equal spacing of a number of chips. -/
def evenlySpaced (chips : Nat) : Except AddressOverflow AddressPlan :=
  withInterval chips (256 / chips)

def chipCount (plan : AddressPlan) : Nat :=
  plan.addresses.length

end AddressPlan

/-- The spacing of a chain; one where no plan exists, and an absent chain counts as one chip. -/
def addressInterval (chips : Nat) : Nat :=
  match AddressPlan.evenlySpaced (max chips 1) with
  | .ok plan => plan.interval
  | .error _ => 1

end ChipChain
