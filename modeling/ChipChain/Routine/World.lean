import ChipChain.Routine.Basic

/-!
# The world of a routine

A clock in whole milliseconds, a serial link that answers as it was told to,
the driver's ledger, and the host: what each action does to them, how long it
takes, and what it answers. Running a routine performs its actions one after
the other.
-/

namespace ChipChain

/-- What the link has in store for the next reading. -/
inductive Reply where
  | bytes (data : Bytes)
  | silence
  | fault (e : LinkError)
  deriving DecidableEq, Repr

/-- The serial link: what has gone out, what will come in, and what will fail. -/
structure Line where
  sent : Array (Nat × Bytes) := #[]
  /-- What the next readings meet, in order; nothing more means silence. -/
  replies : List Reply := []
  /-- The sending after so many more fails, once. -/
  sendFault : Option (Nat × LinkError) := none
  flushFault : Option LinkError := none
  baudFault : Option LinkError := none
  /-- How often the input was flushed with success. -/
  flushes : Nat := 0
  bauds : Array (Nat × Nat) := #[]
  deriving Inhabited

namespace Line

/-- Send a frame, or fail if it is this sending's turn. -/
def transmit (line : Line) (now : Nat) (frame : Bytes) : Except LinkError Unit × Line :=
  match line.sendFault with
  | some (0, e) => (.error e, { line with sendFault := none })
  | some (left + 1, e) =>
    (.ok (), { line with sent := line.sent.push (now, frame), sendFault := some (left, e) })
  | none => (.ok (), { line with sent := line.sent.push (now, frame) })

/-- Discard input, or fail if a failure is due. Replies still to come are not input yet. -/
def flush (line : Line) : Except LinkError Unit × Line :=
  match line.flushFault with
  | some e => (.error e, { line with flushFault := none })
  | none => (.ok (), { line with flushes := line.flushes + 1 })

/-- Change the baud rate, or fail if a failure is due. -/
def setBaud (line : Line) (now baud : Nat) : Except LinkError Unit × Line :=
  match line.baudFault with
  | some e => (.error e, { line with baudFault := none })
  | none => (.ok (), { line with bauds := line.bauds.push (now, baud) })

/-- Take the next reply: the answer, how long it took, and the replies left. What does not fit the
capacity is lost; silence takes the whole window. -/
def take (capacity window : Nat) : List Reply → Except LinkError Bytes × Nat × List Reply
  | [] => (.ok [], window, [])
  | .silence :: rest => (.ok [], window, rest)
  | .fault e :: rest => (.error e, 0, rest)
  | .bytes data :: rest => (.ok (data.take capacity), 0, rest)

/-- Take replies as long as each fills the capacity. -/
def collect (capacity window : Nat) : List Reply → Series × Nat × List Reply
  | .bytes data :: rest =>
    let got := data.take capacity
    if got.length = capacity ∧ got ≠ [] then
      let (series, duration, left) := collect capacity window rest
      ({ series with full := got :: series.full }, duration, left)
    else (⟨[], .ok got⟩, 0, rest)
  | replies =>
    let (ending, duration, left) := take capacity window replies
    (⟨[], ending⟩, duration, left)

end Line

/-- What stands behind requests for a core voltage. -/
inductive Regulator where
  | absent
  | working
  | failing (reason : String)
  deriving DecidableEq, Repr, Inhabited

inductive Consumer where
  | absent
  | present
  | gone
  deriving DecidableEq, Repr, Inhabited

structure World where
  clock : Nat := 0
  line : Line := {}
  ledger : Ledger
  ramp : Ramp := .boot
  journal : Journal := #[]
  settings : Store := {}
  regulator : Regulator := .absent
  volts : Array (Nat × Single) := #[]
  consumer : Consumer := .absent
  found : Array (Nat × Found) := #[]
  deriving Inhabited

namespace World

/-- A world for chips of a model that have just been powered. -/
def fresh (model : Model) : World :=
  { ledger := { ids := { step := model.family.jobIdStep } } }

def record (w : World) (entry : Entry) : World :=
  { w with journal := w.journal.push entry }

/-- What an action answers, how many milliseconds it takes, and the world when it begins to wait. -/
def perform (w : World) : (action : Action) → action.Answer × Nat × World
  | .transmit frame =>
    let (answer, line) := w.line.transmit w.clock frame
    (answer, 0, { w with line })
  | .receive capacity window =>
    let (answer, duration, replies) := Line.take capacity window w.line.replies
    (answer, duration, { w with line := { w.line with replies } })
  | .collect capacity window =>
    let (series, duration, replies) := Line.collect capacity window w.line.replies
    (series, duration, { w with line := { w.line with replies } })
  | .flush =>
    let (answer, line) := w.line.flush
    (answer, 0, { w with line })
  | .setBaud baud =>
    let (answer, line) := w.line.setBaud w.clock baud
    (answer, 0, { w with line })
  | .pause ms => ((), ms, w)
  | .note entry => ((), 0, w.record entry)
  | .drawId =>
    let (id, ids) := w.ledger.ids.next
    (id, 0, { w with ledger := { w.ledger with ids } })
  | .install id job =>
    ((), 0, { w with ledger := { w.ledger with jobs := w.ledger.jobs.install id job } })
  | .lookUp id => (w.ledger.jobs.get? id, 0, w)
  | .screen nonce =>
    let (accepted, repeats) := w.ledger.repeats.accept nonce
    (accepted, 0, { w with ledger := { w.ledger with repeats } })
  | .countLive => (w.ledger.jobs.liveCount, 0, w)
  | .clearJobs => ((), 0, { w with ledger := { w.ledger with jobs := .empty } })
  | .readRamp => (w.ramp, 0, w)
  | .storeRamp ramp => ((), 0, { w with ramp })
  | .readSettings => (w.settings, 0, w)
  | .regulate volts =>
    match w.regulator with
    | .absent => (.absent, 0, w)
    | .working => (.done, 0, { w with volts := w.volts.push (w.clock, volts) })
    | .failing reason => (.failed reason, 0, { w with volts := w.volts.push (w.clock, volts) })
  | .deliver found =>
    match w.consumer with
    | .absent => (true, 0, w)
    | .present => (true, 0, { w with found := w.found.push (w.clock, found) })
    | .gone => (false, 0, w)

/-- The world some milliseconds later. -/
def after (w : World) (ms : Nat) : World :=
  { w with clock := w.clock + ms }

end World

namespace Routine

variable {ε α : Type}

def run : Routine ε α → World → Except ε α × World
  | done value, w => (.ok value, w)
  | fail error, w => (.error error, w)
  | act action next, w =>
    let (answer, duration, w) := w.perform action
    (next answer).run (w.after duration)

/-- How far a routine has come without letting time pass. -/
inductive Progress (ε α : Type) where
  | ended (outcome : Except ε α)
  | waiting (ms : Nat) (rest : Routine ε α)

/-- Run a routine until it ends or has to wait. -/
def advance : Routine ε α → World → Progress ε α × World
  | done value, w => (.ended (.ok value), w)
  | fail error, w => (.ended (.error error), w)
  | act action next, w =>
    let (answer, duration, w) := w.perform action
    if duration = 0 then (next answer).advance w else (.waiting duration (next answer), w)

end Routine

end ChipChain
