import HotReload.CommandLine.Arguments
import HotReload.CommandLine.OneShot
import HotReload.Config.Loading
import HotReload.Watch.Session

/-! One run of the program, up to its end or to the start of a watch session.
All that it writes is a value, so that a run depends on its arguments, on what it sees of
the file system, on the clocks and on whether the standard output is open. -/
namespace HotReload.CommandLine

inductive Next where
  | exit (code : UInt8)
  | watch (s : Watch.Session)

structure Run where
  outputs : List Output
  next : Next

def versionText : String := "hotmod 0.1.0\n"

def refuse (r : Refusal) : Run :=
  ⟨if r = .version then [.out versionText] else [], .exit r.exitCode⟩

def failureText (message : String) (cause : Option String) : String :=
  match cause with
  | none => s!"Error: {message}\n"
  | some cause => s!"Error: {message}\n\nCaused by:\n    {cause}\n"

def fail (outputs : List Output) (message : String) (cause : Option String) : Run :=
  ⟨outputs ++ [.err (failureText message cause)], .exit 1⟩

def runImpact (outputs : List Output) (config : ProjectConfig) (view : FileView)
    (outOpen : Bool) (snapshot : Path) (rebuild pretty : Bool) : Run :=
  match OneShot.run config view snapshot rebuild pretty with
  | .error (.unreadable _ .interrupted) => ⟨outputs, .exit 0⟩
  | .error e => fail outputs e.message (some e.cause)
  | .ok answer =>
    let outputs := outputs ++ Note.logVerbose config.isVerbose answer.notes
    if outOpen then ⟨outputs ++ [.out (answer.text ++ "\n")], .exit 0⟩
    else fail outputs "failed to write payload" (some "Broken pipe (os error 32)")

def runWatch (outputs : List Output) (config : ProjectConfig) (view : FileView)
    (outOpen : Bool) (time : Watch.Time) (snapshot : Path) : Run :=
  match Watch.Session.start config view snapshot outOpen time with
  | .error .noDirectory => fail outputs Watch.SetupError.noDirectory.message none
  | .error e => fail outputs e.message (some ReadFault.notFound.message)
  | .ok (s, started) => ⟨outputs ++ started, .watch s⟩

/-- Runs the program. A wrong configuration ends it before anything else happens, and so
does an interrupt while a file is read. -/
def run (args : List Argument) (view : FileView) (outOpen : Bool) (time : Watch.Time) : Run :=
  match read args with
  | .error r => refuse r
  | .ok arguments =>
    let loading := ProjectConfig.discover view arguments.config arguments.verbose
    let outputs := loading.notes.map Note.log
    match loading.result with
    | .error (.unreadable _ .interrupted) => ⟨outputs, .exit 0⟩
    | .error e => ⟨outputs ++ [(Note.error e.fullMessage).log], .exit 1⟩
    | .ok config =>
      match arguments.command with
      | .impact snapshot rebuild pretty =>
        runImpact outputs config view outOpen snapshot rebuild pretty
      | .watch snapshot => runWatch outputs config view outOpen time snapshot

end HotReload.CommandLine
