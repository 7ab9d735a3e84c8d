import HotReload.Path.Quoted
import HotReload.Watch.Debounce
import HotReload.Watch.Report

/-! A watch session: one cycle after another over a snapshot file, until it is stopped.
The directory of the file is watched, since the file itself may be replaced or not exist
yet. Every turn of the loop takes in at most one message and then runs a cycle if the
debouncer lets a change through. -/
namespace HotReload.Watch

inductive SetupError where
  | noDirectory
  | unwatchable (directory : Path)
deriving Repr, DecidableEq

def SetupError.message : SetupError → String
  | .noDirectory => "snapshot path has no parent directory"
  | .unwatchable directory => s!"failed to watch {directory.display}"

structure Session where
  config : ProjectConfig
  file : Path
  verbose : Bool
  last : Option Cycle
  debouncer : Debouncer
  console : Console

/-- The two clocks: milliseconds since the start, and seconds of the day. -/
structure Time where
  now : Nat
  seconds : Nat
deriving Repr, DecidableEq

inductive Message where
  | event (e : Event)
  | trouble (text : String)
  | timeout
deriving Repr, DecidableEq

namespace Session

def completed (s : Session) : Nat := s.last.elim 0 Cycle.completed

def runCycle (s : Session) (view : FileView) (seconds : Nat) : Session × List Output :=
  let cycle := Cycle.run s.config view s.file s.completed
  let (console, reported) := report s.console seconds s.file cycle
  ({ s with last := some cycle, console },
    Note.logVerbose s.verbose cycle.notes ++ reported)

def runCycles (s : Session) : List (FileView × Nat) → Session × List Output
  | [] => (s, [])
  | (view, seconds) :: later =>
    let (s, outputs) := s.runCycle view seconds
    let (s, more) := s.runCycles later
    (s, outputs ++ more)

def directory (view : FileView) (snapshot : Path) : Except SetupError Path :=
  match (view.normalize snapshot).parent with
  | none => .error .noDirectory
  | some d => if view.isPresent d then .ok d else .error (.unwatchable d)

def greeting (config : ProjectConfig) (file : Path) : List Note :=
  .watch s!"{config.displayName}: watching {file.display}" ::
    if config.hotReloadEnabled then []
    else [.watch "hot reload is disabled, rebuilds will not produce payloads"]

def opening (config : ProjectConfig) (file : Path) (verbose outOpen : Bool) : Session :=
  ⟨config, file, verbose, none, .ofTarget file, ⟨.fresh, outOpen⟩⟩

def fresh (config : ProjectConfig) (file : Path) (outOpen : Bool) : Session :=
  opening config file config.isVerbose outOpen

/-- Begins a session: a snapshot that is already there is the first cycle. -/
def start (config : ProjectConfig) (view : FileView) (snapshot : Path) (outOpen : Bool)
    (time : Time) : Except SetupError (Session × List Output) :=
  match directory view snapshot with
  | .error e => .error e
  | .ok _ =>
    let s := fresh config (view.normalize snapshot) outOpen
    let greeted := (greeting config s.file).map Note.log
    if view.isPresent s.file then
      let (s, outputs) := s.runCycle view time.seconds
      .ok (s, greeted ++ outputs)
    else .ok (s, greeted)

def receive (s : Session) (now : Nat) (m : Message) : Session × List Output :=
  match m with
  | .timeout => (s, [])
  | .trouble text =>
    ({ s with console := { s.console with block := s.console.block.detach } },
      [(Note.watch s!"notify error: {text}").log])
  | .event e =>
    let label := e.kind.label?.getD ""
    let notes :=
      if s.debouncer.isRelevant e then
        [Note.watch s!"event {label}: {Path.quotedList e.paths}"]
      else []
    ({ s with debouncer := s.debouncer.addEvent now e }, Note.logVerbose s.verbose notes)

def turn (s : Session) (view : FileView) (time : Time) (m : Message) : Session × List Output :=
  let (s, received) := s.receive time.now m
  let (ready, debouncer) := s.debouncer.take time.now
  let s := { s with debouncer }
  if ready then
    let (s, outputs) := s.runCycle view time.seconds
    (s, received ++ outputs)
  else (s, received)

/-- The lines of an interrupt, which detaches the status. -/
def interrupt (s : Session) : Session × List Output :=
  ({ s with console := { s.console with block := s.console.block.detach } },
    [(Note.watch "shutting down...").log])

def farewell (s : Session) : List Output :=
  Note.logVerbose s.verbose [.watch s!"stopped after {s.completed} cycle(s)"]

end Session
end HotReload.Watch
