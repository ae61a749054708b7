import ChipChain.Address
import ChipChain.Bits
import ChipChain.Frequency

/-!
# Shares of the nonce space

How many nonces each core of each chip searches, what the hash counting number
is written with, and how long the search takes.
-/

namespace ChipChain

/-- Blocks of nonces for one core: the word range divided among a power of two of cores, then cut
into blocks. -/
def blocksPerCore (cores : Nat) : Nat :=
  (Nat.pow 2 32 - 1) / largestPowerOfTwo cores / Nat.pow 2 16

/-- The nonces set aside for one core: its blocks, times the part of the address space that one
chip covers. -/
def reservedSpaceDouble (cores interval : Nat) : Float :=
  (blocksPerCore cores).toUInt32.toFloat * (interval.toUInt32 <<< 8).toFloat

/-- The hash counting number: half the reserved space in crystal cycles. What is no number becomes
zero, and what is too large the largest word. -/
def hashCountingNumber (cores interval : Nat) (f : Frequency) : UInt32 :=
  (reservedSpaceDouble cores interval * (25.0 / f.mhz.toFloat) / 2.0).toUInt32

def searchTime (cores interval : Nat) (f : Frequency) (versions : Nat) : Float :=
  versions.toUInt64.toFloat * reservedSpaceDouble cores interval / f.hz.toUInt64.toFloat * 1000.0

end ChipChain
