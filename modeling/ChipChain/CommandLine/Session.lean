import ChipChain.CommandLine.Arguments
import ChipChain.Daemon.Clockwork

/-!
# A session

What the program does with its arguments: open the port, load the settings,
run the daemon; and how it ends. A rehearsal is a session over a scripted line.
-/

namespace ChipChain.CommandLine

structure Exit where
  code : Nat
  text : String
  deriving DecidableEq, Repr

namespace Exit

/-- The end of a program that does not run. -/
def ofStop : Stop → Exit
  | .information => ⟨0, ""⟩
  | .usage e => ⟨2, s!"error: {e.message}\n"⟩

def ofOutcome : Except DaemonError Unit → Exit
  | .ok () => ⟨0, ""⟩
  | .error e => ⟨1, e.report⟩

end Exit

/-- A daemon that is ready to start, with its settings store and what was reported so far. -/
structure Prepared where
  daemon : Daemon
  store : Store
  reports : List Entry

/-- The daemon that the arguments ask for. It has no source of work. -/
def Arguments.prepare (a : Arguments) : Except DaemonError Prepared :=
  let (loaded, store, reports) := Settings.load a.store
  match loaded with
  | .error e => .error (.badSettings e)
  | .ok settings =>
    let listen := a.listen.map fun seconds => 1000 * seconds.toNat
    .ok ⟨{ settings, hasWork := false, selfRunning := true, listen }, store, reports⟩

/-- The outcome of a machine that has run; one that has not ended has not failed. -/
def outcome (m : Machine) : Except DaemonError Unit :=
  match m.supervisor with
  | .ended _ result => result
  | _ => .ok ()

/-- A session over a scripted line, which a path may or may not lead to: how it ends, and the line
afterwards. -/
def rehearse (a : Arguments) (connect : String → Except LinkError Line) : Exit × Line :=
  match connect a.port with
  | .error e => (.ofOutcome (.error (.cannotOpen a.port e)), {})
  | .ok line =>
    match a.prepare with
    | .error e => (.ofOutcome (.error e), line)
    | .ok ready =>
      let world : World :=
        { World.fresh ready.daemon.settings.model with line, settings := ready.store }
      let ended := (ready.daemon.scenario world []).play ready.daemon
      (.ofOutcome (outcome ended), ended.world.line)

end ChipChain.CommandLine
