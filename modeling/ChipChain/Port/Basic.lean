import ChipChain.Error

/-!
# The serial port

A pump owns the port. It reads what arrives, passes it on in chunks, and serves
requests: to write, to change the baud rate, to clear the input. The owner of
the transport queues requests, takes chunks one by one, and keeps what a
reading leaves over. Each move is indivisible; a run is any sequence of moves,
each possible when it is made.
-/

namespace ChipChain

namespace Port

/-- What the pump can be asked to do. -/
inductive Request where
  | write (data : Bytes)
  | setBaud (baud : Nat)
  | clearInput
  deriving DecidableEq, Repr

/-- The error of a request that the port refuses. -/
def Request.refused (reason : String) : Request → LinkError
  | write _ => .io reason
  | setBaud baud => .baudRejected baud reason
  | clearInput => .io reason

inductive Pump where
  | listening
  | holding (chunk : Bytes)
  | stopped
  deriving DecidableEq, Repr

/-- What the owner is doing with received bytes. -/
inductive Hold where
  | free
  | receiving (capacity : Nat)
  | discarding
  deriving DecidableEq, Repr

/-- What a call on the port comes to. -/
inductive Outcome where
  | received (result : Except LinkError Bytes)
  | answered (request : Request) (result : Except LinkError Unit)
  deriving Repr

/-- One step of the far end, of the pump, or of the owner. -/
inductive Move where
  | arrive (data : Bytes)
  | hangUp
  /-- The pump reads that many bytes. -/
  | read (count : Nat)
  | forward
  /-- The pump serves the oldest request; the port may refuse it for a reason. -/
  | serve (refusal : Option String)
  /-- The pump meets the end of the line, or an error in reading, and stops. -/
  | stop
  | submit (request : Request)
  | startReceiving (capacity : Nat)
  | take
  | finish
  | expire
  | cancel
  | startDiscarding
  | discard
  /-- The owner has thrown all chunks away, and drops what it kept. -/
  | endDiscarding
  deriving DecidableEq, Repr

def chunkSize : Nat := 256

def chunkLimit : Nat := 64

def requestLimit : Nat := 16

def defaultBaud : Nat := 115200

end Port

/-- A serial port with its pump and its owner. -/
structure Port where
  arrived : Bytes := []
  hungUp : Bool := false
  baud : Nat := Port.defaultBaud
  written : Bytes := []
  pump : Port.Pump := .listening
  requests : List Port.Request := []
  chunks : List Bytes := []
  /-- Bytes that the owner has taken and not handed out. -/
  pending : Bytes := []
  hold : Port.Hold := .free
  deriving DecidableEq, Repr, Inhabited

namespace Port

/-- What the port does for a request that it does not refuse. -/
def apply (p : Port) : Request → Port
  | .write data => { p with written := p.written ++ data }
  | .setBaud baud => { p with baud }
  | .clearInput => { p with arrived := [] }

/-- Everything received and not yet handed out, in order of arrival. -/
def unread (p : Port) : Bytes :=
  p.pending ++ p.chunks.flatten ++
    (match p.pump with
      | .holding chunk => chunk
      | _ => []) ++
    p.arrived

/-- End a reading with at most `capacity` bytes of those taken. -/
def handOut (p : Port) (capacity : Nat) : List Outcome × Port :=
  ([.received (.ok (p.pending.take capacity))],
    { p with pending := p.pending.drop capacity, hold := .free })

/-- What comes of a move; `none` if it cannot be made now. -/
def move (p : Port) : Move → Option (List Outcome × Port)
  | .arrive data => if p.hungUp then none else some ([], { p with arrived := p.arrived ++ data })
  | .hangUp => some ([], { p with hungUp := true })
  | .read count =>
    if p.pump = .listening ∧ 0 < count ∧ count ≤ chunkSize ∧ count ≤ p.arrived.length then
      some ([], { p with pump := .holding (p.arrived.take count), arrived := p.arrived.drop count })
    else none
  | .forward =>
    match p.pump with
    | .holding chunk =>
      if p.chunks.length < chunkLimit then
        some ([], { p with pump := .listening, chunks := p.chunks ++ [chunk] })
      else none
    | _ => none
  | .serve refusal =>
    match p.pump, p.requests with
    | .listening, request :: requests =>
      match refusal with
      | none => some ([.answered request (.ok ())], { p with requests }.apply request)
      | some reason =>
        some ([.answered request (.error (request.refused reason))], { p with requests })
    | _, _ => none
  | .stop =>
    if p.pump = .listening then
      some (p.requests.map (.answered · (.error .disconnected)),
        { p with pump := .stopped, requests := [] })
    else none
  | .submit request =>
    if p.pump = .stopped then some ([.answered request (.error .disconnected)], p)
    else if p.requests.length < requestLimit then
      some ([], { p with requests := p.requests ++ [request] })
    else none
  | .startReceiving capacity =>
    if p.hold = .free then some ([], { p with hold := .receiving capacity }) else none
  | .take =>
    match p.hold, p.chunks with
    | .receiving capacity, chunk :: chunks =>
      if p.pending.length < capacity then
        some ([], { p with pending := p.pending ++ chunk, chunks })
      else none
    | _, _ => none
  | .finish =>
    match p.hold with
    | .receiving capacity =>
      if capacity ≤ p.pending.length then some (p.handOut capacity)
      else if p.pump = .stopped ∧ p.chunks = [] then
        if p.pending = [] then
          some ([.received (.error .disconnected)], { p with hold := .free })
        else some (p.handOut capacity)
      else none
    | _ => none
  | .expire =>
    match p.hold with
    | .receiving capacity =>
      if p.pending.length < capacity ∧ p.chunks = [] ∧ p.pump ≠ .stopped then
        some (p.handOut capacity)
      else none
    | _ => none
  | .cancel =>
    match p.hold with
    | .receiving _ => some ([], { p with hold := .free })
    | _ => none
  | .startDiscarding =>
    if p.hold = .free then some ([], { p with hold := .discarding }) else none
  | .discard =>
    match p.hold, p.chunks with
    | .discarding, _ :: chunks => some ([], { p with chunks })
    | _, _ => none
  | .endDiscarding =>
    if p.hold = .discarding ∧ p.chunks = [] then
      some ([], { p with pending := [], hold := .free })
    else none

/-- What comes of a sequence of moves, each of which has to be possible. -/
def run (p : Port) : List Move → Option (List Outcome × Port)
  | [] => some ([], p)
  | m :: rest => do
    let (outcomes, p) ← p.move m
    let (more, p) ← p.run rest
    return (outcomes ++ more, p)

end Port

end ChipChain
