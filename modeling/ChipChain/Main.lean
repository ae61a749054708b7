import ChipChain.CommandLine.Session

/-!
# The program

A session over a device and the wall clock. The device is a terminal that has
been set up from outside: raw, and with readings that return after a short while
without input. The program itself changes none of its settings, so a rate that
the line has to follow is up to the device.
-/

namespace ChipChain.Main

structure Device where
  reader : IO.FS.Handle
  writer : IO.FS.Handle
  world : IO.Ref World
  /-- No reading goes on past this time. -/
  deadline : IO.Ref (Option Nat)

/-- The reason of a failure, as the system words it. -/
def reason : IO.Error → String
  | .noFileOrDirectory .. => "No such file or directory"
  | .permissionDenied .. => "Permission denied"
  | .inappropriateType .. => "Is a directory"
  | .resourceBusy .. => "Device or resource busy"
  | e => toString e

def openDevice (path : String) : IO (Except LinkError Device) := do
  let opened ← (do
    let reader ← IO.FS.Handle.mk path .read
    let writer ← IO.FS.Handle.mk path .readWrite
    return (reader, writer) : IO _).toBaseIO
  match opened with
  | .error e => return .error (.openFailed path (reason e))
  | .ok (reader, writer) =>
    if ← reader.isTty then
      return .ok ⟨reader, writer, ← IO.mkRef default, ← IO.mkRef none⟩
    else return .error (.openFailed path "Not a typewriter")

/-- Read until there are enough bytes or the time is up. -/
partial def readUntil (d : Device) (capacity limit : Nat) (got : Bytes) :
    IO (Except LinkError Bytes) := do
  if capacity ≤ got.length || limit ≤ (← IO.monoMsNow) then return .ok got
  match ← (d.reader.read (USize.ofNat (capacity - got.length))).toBaseIO with
  | .error _ => return if got.isEmpty then .error .disconnected else .ok got
  | .ok more =>
    if more.isEmpty then IO.sleep 1
    readUntil d capacity limit (got ++ more.toList)

/-- Read at most `capacity` bytes within some milliseconds. -/
def read (d : Device) (capacity window : Nat) : IO (Except LinkError Bytes) := do
  let limit := (← IO.monoMsNow) + window
  readUntil d capacity (min limit ((← d.deadline.get).getD limit)) []

/-- Read as long as each reading fills the capacity. -/
partial def collect (d : Device) (capacity window : Nat) (full : List Bytes) : IO Series := do
  match ← read d capacity window with
  | .ok got =>
    if got.length = capacity ∧ got ≠ [] then collect d capacity window (got :: full)
    else return ⟨full.reverse, .ok got⟩
  | .error e => return ⟨full.reverse, .error e⟩

/-- A number of at least `width` digits. -/
def padded (width n : Nat) : String :=
  let digits := (Nat.repr n).toList
  String.ofList (List.replicate (width - digits.length) '0' ++ digits)

/-- The time of day since the clock's own midnight. -/
def stamp (ms : Nat) : String :=
  s!"{padded 2 (ms / 3600000 % 24)}:{padded 2 (ms / 60000 % 60)}:" ++
    s!"{padded 2 (ms / 1000 % 60)}.{padded 3 (ms % 1000)}"

/-- Print a report, unless it is for those who look closer. -/
def report (entry : Entry) : IO Unit := do
  if entry.level.within .info then
    IO.println s!"{stamp (← IO.monoMsNow)} {entry.render}"

def perform (d : Device) (action : Action) : IO action.Answer :=
  match action with
  | .transmit frame => do
    let sent ← (do
      d.writer.write frame.toByteArray
      d.writer.flush : IO Unit).toBaseIO
    return sent.mapError fun e => .io (reason e)
  | .receive capacity window => read d capacity window
  | .collect capacity window => collect d capacity window []
  | .flush => do
    let dropped ← (d.reader.read 4096).toBaseIO
    return (dropped.map fun _ => ()).mapError fun e => .io (reason e)
  | .setBaud _ => return .ok ()
  | .pause ms => IO.sleep (UInt32.ofNat ms)
  | .note entry => report entry
  | action => do
    let (answer, _, world) := (← d.world.get).perform action
    d.world.set world
    return answer

def run {ε α : Type} (d : Device) : Routine ε α → IO (Except ε α)
  | .done value => return .ok value
  | .fail e => return .error e
  | .act action next => do run d (next (← perform d action))

/-- Read results until the time is up or the chain fails. -/
partial def listen (d : Device) (daemon : Daemon) : IO (Except ChainError Unit) := do
  if let some deadline ← d.deadline.get then
    if deadline ≤ (← IO.monoMsNow) then return .ok ()
  match ← run d daemon.readOnce with
  | .ok () => listen d daemon
  | .error e => return .error e

/-- Start the chain and listen. The settings do not change meanwhile, so the manager looks once. -/
def hash (d : Device) (daemon : Daemon) : IO (Except DaemonError Unit) := do
  match ← run d daemon.startUp with
  | .error e => return .error e
  | .ok _ =>
    let manager : Routine DaemonError Manager :=
      (Manager.startingAt daemon.settings.frequency).begin daemon.controller
    let _ ← run d manager
    report (Daemon.say .info "Started.")
    if let some ms := daemon.listen then d.deadline.set (some ((← IO.monoMsNow) + ms))
    match ← listen d daemon with
    | .ok () =>
      report (Daemon.say .info "Listen period elapsed")
      report (Daemon.say .info "Exiting.")
      return .ok ()
    | .error e =>
      report ⟨.error, Daemon.source, "Result reader lost the chain", [("error", e.message)]⟩
      return .error .chainSilent

def session (a : CommandLine.Arguments) : IO (Except DaemonError Unit) := do
  match ← openDevice a.port with
  | .error e => return .error (.cannotOpen a.port e)
  | .ok device =>
    match a.prepare with
    | .error e => return .error e
    | .ok ready =>
      ready.reports.forM report
      device.world.set { World.fresh ready.daemon.settings.model with settings := ready.store }
      hash device ready.daemon

def environment : IO (List (String × String)) := do
  let names := CommandLine.Flag.all.filterMap CommandLine.Flag.variableName?
  return (← names.mapM fun name => return (← IO.getEnv name).map fun value => (name, value)).filterMap
    id

/-- Run the program on the words of a command line. -/
def program (words : List String) : IO CommandLine.Exit := do
  let known ← environment
  match CommandLine.Arguments.read words (known.lookup ·) with
  | .error stop => return .ofStop stop
  | .ok a => return .ofOutcome (← session a)

end ChipChain.Main

/-- Run the program, say how it ended, and give its exit code. -/
def main (words : List String) : IO UInt32 := do
  let exit ← ChipChain.Main.program words
  IO.eprint exit.text
  return UInt32.ofNat exit.code
