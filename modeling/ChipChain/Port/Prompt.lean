import ChipChain.Port.Basic

/-!
# A prompt port

One particular way to run a port: between two calls of the owner the pump does
everything it can, requests first, and the owner takes chunks as they come. Main
statement: such a stretch comes to an end, because each move of it leaves less
to be done.
-/

namespace ChipChain

namespace Port

/-- The next move of the owner while it collects. -/
def ownerMove? (p : Port) : Option Move :=
  match p.hold, p.chunks with
  | .receiving capacity, _ :: _ => if p.pending.length < capacity then some .take else none
  | _, _ => none

def pumpMove? (p : Port) : Option Move :=
  match p.pump with
  | .listening =>
    if p.requests ≠ [] then some (.serve none)
    else if p.arrived ≠ [] then some (.read (min chunkSize p.arrived.length))
    else if p.hungUp then some .stop
    else none
  | .holding _ => if p.chunks.length < chunkLimit then some .forward else none
  | .stopped => none

def next? (p : Port) : Option Move :=
  p.pumpMove? <|> p.ownerMove?

/-- What the pump still has to do, apart from requests and bytes that it has not read. -/
def Pump.load : Pump → Nat
  | listening => 1
  | holding _ => 3
  | stopped => 0

/-- How much there is to be done: a byte is read, passed on, and taken. -/
def backlog (p : Port) : Nat :=
  3 * p.arrived.length + p.pump.load + p.chunks.length + p.requests.length

theorem backlog_apply_le (p : Port) (r : Request) : (p.apply r).backlog ≤ p.backlog := by
  cases r <;> simp [apply, backlog]

theorem backlog_lt_of_pumpMove? {p q : Port} {m : Move} {os : List Outcome}
    (hm : p.pumpMove? = some m) (hq : p.move m = some (os, q)) : q.backlog < p.backlog := by
  unfold pumpMove? at hm
  split at hm
  next listening =>
    split at hm
    next busy =>
      obtain ⟨r, rest, hr⟩ := List.exists_cons_of_ne_nil busy
      obtain rfl := Option.some.inj hm
      simp only [move, listening, hr, Option.some.injEq, Prod.mk.injEq] at hq
      obtain ⟨-, rfl⟩ := hq
      refine Nat.lt_of_le_of_lt (backlog_apply_le _ r) ?_
      simp [backlog, hr, listening]
    next =>
      split at hm
      next some_arrived =>
        obtain rfl := Option.some.inj hm
        have := List.length_pos_iff.2 some_arrived
        simp only [move, listening] at hq
        split at hq
        · simp only [Option.some.injEq, Prod.mk.injEq] at hq
          obtain ⟨-, rfl⟩ := hq
          simp only [backlog, listening, Pump.load, List.length_drop, chunkSize]
          omega
        · exact absurd hq (by simp)
      next =>
        split at hm
        · obtain rfl := Option.some.inj hm
          simp only [move, listening, if_true, Option.some.injEq, Prod.mk.injEq] at hq
          obtain ⟨-, rfl⟩ := hq
          simp only [backlog, listening, Pump.load, List.length_nil]
          omega
        · exact absurd hm (by simp)
  next chunk holding =>
    split at hm
    next room =>
      obtain rfl := Option.some.inj hm
      simp only [move, holding, if_pos room, Option.some.injEq, Prod.mk.injEq] at hq
      obtain ⟨-, rfl⟩ := hq
      simp only [backlog, holding, Pump.load, List.length_append, List.length_singleton]
      omega
    next => exact absurd hm (by simp)
  next => exact absurd hm (by simp)

theorem backlog_lt_of_ownerMove? {p q : Port} {m : Move} {os : List Outcome}
    (hm : p.ownerMove? = some m) (hq : p.move m = some (os, q)) : q.backlog < p.backlog := by
  unfold ownerMove? at hm
  split at hm
  next capacity chunk chunks receiving hc =>
    split at hm
    next short =>
      obtain rfl := Option.some.inj hm
      simp only [move, receiving, hc, if_pos short, Option.some.injEq, Prod.mk.injEq] at hq
      obtain ⟨-, rfl⟩ := hq
      simp [backlog, hc]
    next => exact absurd hm (by simp)
  next => exact absurd hm (by simp)

theorem backlog_lt_of_next? {p q : Port} {m : Move} {os : List Outcome}
    (hm : p.next? = some m) (hq : p.move m = some (os, q)) : q.backlog < p.backlog := by
  unfold next? at hm
  cases hp : p.pumpMove? with
  | some m' =>
    rw [hp] at hm
    obtain rfl : m' = m := by simpa using hm
    exact backlog_lt_of_pumpMove? hp hq
  | none =>
    rw [hp] at hm
    exact backlog_lt_of_ownerMove? (by simpa using hm) hq

/-- Make moves until there is none left to make. -/
def settle (p : Port) : List Outcome × Port :=
  match _hm : p.next? with
  | none => ([], p)
  | some m =>
    match _hq : p.move m with
    | none => ([], p)
    | some (outcomes, q) =>
      let (more, last) := q.settle
      (outcomes ++ more, last)
termination_by p.backlog
decreasing_by exact backlog_lt_of_next? _hm _hq

/-- Make a move if it can be made, and then all that follow from it. -/
def after (p : Port) (m : Move) : List Outcome × Port :=
  match p.move m with
  | none => ([], p)
  | some (outcomes, p) =>
    let (more, p) := p.settle
    (outcomes ++ more, p)

/-! ## Calls -/

def feed (p : Port) (data : Bytes) : Port :=
  (p.after (.arrive data)).2

def close (p : Port) : Port :=
  (p.after .hangUp).2

/-- The answer to a request; `none` if the pump does not come to it. -/
def request (p : Port) (r : Request) : Option (Except LinkError Unit) × Port :=
  let (outcomes, p) := p.after (.submit r)
  (outcomes.findSome? fun
    | .answered asked result => if asked = r then some result else none
    | .received _ => none, p)

def send (p : Port) (data : Bytes) : Option (Except LinkError Unit) × Port :=
  p.request (.write data)

def changeBaud (p : Port) (baud : Nat) : Option (Except LinkError Unit) × Port :=
  p.request (.setBaud baud)

/-- Read at most `capacity` bytes; what has not come by now does not come in time. -/
def receive (p : Port) (capacity : Nat) : Option (Except LinkError Bytes) × Port :=
  let (_, p) := p.after (.startReceiving capacity)
  match p.move .finish <|> p.move .expire with
  | some (outcomes, p) =>
    (outcomes.findSome? fun
      | .received result => some result
      | .answered _ _ => none, p)
  | none => (none, p)

/-- The moves by which the owner throws chunks away. It does not wait between them, so the pump
makes none in the meantime. -/
def discarding (chunks : Nat) : List Move :=
  .startDiscarding :: List.replicate chunks .discard ++ [.endDiscarding]

/-- Throw away everything received: first the chunks and what was kept, then the port's own input. -/
def clear (p : Port) : Option (Except LinkError Unit) × Port :=
  match p.run (discarding p.chunks.length) with
  | none => (none, p)
  | some (_, p) => p.request .clearInput

end Port

end ChipChain
