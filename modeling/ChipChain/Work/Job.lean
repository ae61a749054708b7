import ChipChain.Bytes

/-!
# Work and its results

A unit of work for the chips, and what a chip has found in it.
-/

namespace ChipChain

abbrev Digest := Vector UInt8 32

def Digest.zero : Digest := Vector.replicate 32 0

/-- A unit of work: the fields of a block header in the forms that the chips take, and the pool's
own bookkeeping. -/
structure Job where
  version : UInt32 := 0
  versionMask : UInt32 := 0
  target : UInt32 := 0
  ntime : UInt32 := 0
  startingNonce : UInt32 := 0
  merkleRoot : Digest := .zero
  merkleRootBE : Digest := .zero
  prevBlockHashBE : Digest := .zero
  /-- Hash states after the first header block, one for each version. -/
  midstates : List Digest := []
  poolJobId : String := ""
  extranonce2 : String := ""
  poolDifficulty : UInt32 := 0
  deriving DecidableEq, Repr, Inhabited

/-- The version bits that are rolled unless the pool says otherwise. -/
def defaultVersionMask : UInt32 := 0x1fffe000

/-- A nonce that a chip found, matched with the job it belongs to. -/
structure Share where
  jobId : UInt8
  nonce : UInt32
  version : UInt32
  job : Job
  deriving DecidableEq, Repr

/-- What is handed to the consumer of results. -/
structure Found where
  job : Job
  share : Share
  deriving DecidableEq, Repr

/-- What the source of work can say. -/
inductive WorkMessage where
  | work (job : Job)
  | cleanJobs
  deriving DecidableEq, Repr

end ChipChain
