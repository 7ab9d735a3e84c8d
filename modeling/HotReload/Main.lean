import HotReload.CommandLine.Run
import Std.Async.Signal
import Std.Time.DateTime.Timestamp

namespace HotReload.CommandLine

structure Sight where
  path : Path
  canonical : Option Path
  content : Except ReadFault (List UInt8)

def viewOf (workingDirectory : Path) (sights : List Sight) : FileView :=
  let at? (p : Path) : Option Sight := sights.find? (·.path.bytes == p.bytes)
  { workingDirectory
    isPresent := fun p => (at? p).any (·.canonical.isSome)
    canonical := fun p => (at? p).bind Sight.canonical
    content := fun p => ((at? p).map Sight.content).getD (.error .notFound) }

def readFault : IO.Error → ReadFault
  | .inappropriateType _ 20 _ => .notDirectory
  | .inappropriateType .. => .isDirectory
  | .permissionDenied .. => .accessDenied
  | .interrupted .. => .interrupted
  | _ => .notFound

/-- Looks at a path; its content is read only when asked for. -/
def look (withContent : Bool) (p : Path) : IO Sight := do
  let canonical ← try
      let real ← IO.FS.realPath p.display
      pure (some (Path.ofString real.toString))
    catch _ => pure none
  let content ← if withContent then
      try
        let bytes ← IO.FS.readBinFile p.display
        pure (.ok bytes.toList)
      catch e => pure (.error (readFault e))
    else pure (.error .notFound)
  return ⟨p, canonical, content⟩

def lookAround (workingDirectory : Path) (a : Arguments) : IO FileView := do
  let here ← look false workingDirectory
  let places ← (Config.candidates a.config workingDirectory).mapM (look false)
  let config ← (places.find? (·.canonical.isSome)).mapM fun place => look true place.path
  let found := config.toList ++ places ++ [here]
  match a.command with
  | .impact snapshot _ _ =>
    return viewOf workingDirectory ((← look true snapshot) :: found)
  | .watch snapshot =>
    let seen := (← look false snapshot) :: found
    let file := (viewOf workingDirectory seen).normalize snapshot
    let directory ← (file.parent.toList).mapM (look false)
    return viewOf workingDirectory ((← look true file) :: directory ++ seen)

/-- Writes outputs in order, up to one that the standard output refuses. Returns how many were
written. -/
def writeAll (outputs : List Output) : IO Nat := do
  let out ← IO.getStdout
  let err ← IO.getStderr
  let mut count := 0
  for output in outputs do
    match output with
    | .err text => err.putStr text
    | .out text =>
      try
        out.putStr text
        out.flush
      catch _ => return count
    count := count + 1
  return count

def usage : String :=
  "\n".intercalate [
    "Hot-reload change impact for component compiler watch mode",
    "",
    "Usage: hotmod [OPTIONS] <COMMAND>",
    "",
    "Commands:",
    "  impact  Compute the hot-reload payload for one build snapshot [aliases: i]",
    "  watch   Recompute the payload every time the build snapshot changes [aliases: w]",
    "  help    Print this message or the help of the given subcommand(s)",
    "",
    "Options:",
    "      --color <COLOR>    Control colored output (auto, always, never) [default: auto] " ++
      "[possible values: auto, always, never]",
    "  -C, --config <CONFIG>  Config file path (default: hotmod.toml, searched upward from cwd) " ++
      "[default: hotmod.toml]",
    "  -v, --verbose          Enable verbose output for debugging",
    "  -h, --help             Print help",
    "  -V, --version          Print version",
    ""]

def explain (r : Refusal) : List Output :=
  match r with
  | .version => []
  | .help => [.out usage]
  | .nothingGiven => [.err usage]
  | _ => [.err "error: unexpected arguments\n\nFor more information, try '--help'.\n"]

def time : IO Watch.Time := do
  let now ← IO.monoMsNow
  let stamp ← Std.Time.Timestamp.now
  return ⟨now, stamp.toSecondsSinceUnixEpoch.val.toNat⟩

/-- What tells one content of a file from the next: when it was written, and its size. -/
def stampOf (file : Path) : IO (Option (IO.FS.SystemTime × UInt64)) := do
  try
    let data ← (← IO.FS.realPath file.display).metadata
    return some (data.modified, data.byteSize)
  catch _ => return none

partial def watchLoop (s : Watch.Session) (stopped : Std.Async.AsyncTask Int)
    (last : Option (IO.FS.SystemTime × UInt64)) : IO UInt32 := do
  if ← IO.hasFinished stopped then
    let (s, outputs) := s.interrupt
    discard (writeAll (outputs ++ s.farewell))
    return 0
  let stamp ← stampOf s.file
  let message : Watch.Message :=
    if stamp.isSome && stamp != last then .event ⟨.modifyContent, [s.file]⟩ else .timeout
  let time ← time
  let due := (s.receive time.now message).1.debouncer.isReady time.now
  let view := viewOf ⟨[]⟩ [← look due s.file]
  let (next, outputs) := s.turn view time message
  let count ← writeAll outputs
  let next ← if count < outputs.length then
      let closed := { s with console := { s.console with outOpen := false } }
      let (next, outputs) := closed.turn view time message
      discard (writeAll (outputs.drop count))
      pure next
    else pure next
  IO.sleep 20
  watchLoop next stopped stamp

/-- Writes what a run says and follows it up. `again` is the same run with the standard output
closed, which takes over where a write fails. -/
def carryOut (r again : Run) : IO UInt32 := do
  let count ← writeAll r.outputs
  let r ← if count < r.outputs.length then
      discard (writeAll (again.outputs.drop count))
      pure again
    else pure r
  match r.next with
  | .exit code => return code.toUInt32
  | .watch s =>
    let waiter ← Std.Async.Signal.Waiter.mk .sigint false
    watchLoop s (← waiter.wait) (← stampOf s.file)

def start (args : List String) : IO UInt32 := do
  let workingDirectory := Path.ofString (← IO.currentDir).toString
  let args := args.map Utf8.encode
  let view ← match read args with
    | .error r =>
      discard (writeAll (explain r))
      pure (viewOf workingDirectory [])
    | .ok a => lookAround workingDirectory a
  let time ← time
  carryOut (run args view true time) (run args view false time)

end HotReload.CommandLine

def main (args : List String) : IO UInt32 := HotReload.CommandLine.start args
