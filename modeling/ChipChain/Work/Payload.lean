import ChipChain.Work.Job

/-!
# Job payloads

The two layouts in which chips take work, each with a reader for the fields
that it carries.
-/

namespace ChipChain

/-! ## Midstate layout -/

def midstateSlots : Nat := 4

/-- The midstate in a slot; an empty slot is filled with zeros. -/
def Job.midstateAt (job : Job) (slot : Nat) : Digest :=
  job.midstates[slot]?.getD .zero

/-- A payload with precomputed hash states: identifier, number of midstates, starting nonce,
target, time, the end of the merkle root, and four midstates. -/
def Job.midstatePayload (job : Job) (id : UInt8) : Bytes :=
  [id, UInt8.ofNat (min job.midstates.length midstateSlots)] ++
    Bytes.ofUInt32LE job.startingNonce ++ Bytes.ofUInt32LE job.target ++
    Bytes.ofUInt32LE job.ntime ++ job.merkleRoot.toList.drop 28 ++
    (List.range midstateSlots).flatMap fun slot => (job.midstateAt slot).toList

/-- The fields that a midstate payload carries. -/
structure MidstateFields where
  id : UInt8
  count : UInt8
  startingNonce : UInt32
  target : UInt32
  ntime : UInt32
  /-- The last four bytes of the merkle root. -/
  merkleTail : Bytes
  midstates : List Bytes
  deriving DecidableEq, Repr

def chunks32 : (count : Nat) → Bytes → List Bytes
  | 0, _ => []
  | count + 1, bytes => bytes.take 32 :: chunks32 count (bytes.drop 32)

def MidstateFields.read? : Bytes → Option MidstateFields
  | id :: count :: n0 :: n1 :: n2 :: n3 :: t0 :: t1 :: t2 :: t3 :: s0 :: s1 :: s2 :: s3 ::
      m0 :: m1 :: m2 :: m3 :: slots =>
    if slots.length = 32 * midstateSlots then
      some ⟨id, count, Bytes.toUInt32LE n0 n1 n2 n3, Bytes.toUInt32LE t0 t1 t2 t3,
        Bytes.toUInt32LE s0 s1 s2 s3, [m0, m1, m2, m3], chunks32 count.toNat slots⟩
    else none
  | _ => none

/-! ## Rolling layout -/

/-- A payload for chips that roll versions themselves: identifier, a one, starting nonce, target,
time, merkle root, previous block hash, and version. -/
def Job.rollingPayload (job : Job) (id : UInt8) : Bytes :=
  [id, 1] ++ Bytes.ofUInt32LE job.startingNonce ++ Bytes.ofUInt32LE job.target ++
    Bytes.ofUInt32LE job.ntime ++ job.merkleRootBE.toList ++ job.prevBlockHashBE.toList ++
    Bytes.ofUInt32LE job.version

/-- The fields that a rolling payload carries. -/
structure RollingFields where
  id : UInt8
  startingNonce : UInt32
  target : UInt32
  ntime : UInt32
  merkleRootBE : Bytes
  prevBlockHashBE : Bytes
  version : UInt32
  deriving DecidableEq, Repr

def RollingFields.read? : Bytes → Option RollingFields
  | id :: _ :: n0 :: n1 :: n2 :: n3 :: t0 :: t1 :: t2 :: t3 :: s0 :: s1 :: s2 :: s3 :: rest =>
    match rest.drop 64 with
    | [v0, v1, v2, v3] =>
      some ⟨id, Bytes.toUInt32LE n0 n1 n2 n3, Bytes.toUInt32LE t0 t1 t2 t3,
        Bytes.toUInt32LE s0 s1 s2 s3, rest.take 32, (rest.drop 32).take 32,
        Bytes.toUInt32LE v0 v1 v2 v3⟩
    | _ => none
  | _ => none

end ChipChain
