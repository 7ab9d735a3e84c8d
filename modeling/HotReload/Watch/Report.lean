import HotReload.Terminal.StatusBlock
import HotReload.Watch.Cycle

namespace HotReload.Watch

structure Console where
  block : StatusBlock
  /-- Does the standard output still take what is written? -/
  outOpen : Bool
deriving Repr, DecidableEq

/-- Writes a payload line below the status, which is left in place. When nobody reads the
standard output, this is logged instead. -/
def emit (console : Console) (line : String) : Console × List Output :=
  let (block, text) := console.block.printBelow line
  let written :=
    if console.outOpen then .out text
    else (Note.error "failed to write payload to stdout").log
  ({ console with block }, [written])

def Console.status (console : Console) (display : StatusBlock → StatusBlock × Output) :
    Console × List Output :=
  ({ console with block := (display console.block).1 }, [(display console.block).2])

def report (console : Console) (seconds : Nat) (file : Path) (cycle : Cycle) :
    Console × List Output :=
  let heading := s!"cycle {cycle.completed}"
  match cycle.outcome with
  | .ok .initial => console.status (·.unchanged seconds s!"{heading}: initial build")
  | .ok .disabled => console.status (·.unchanged seconds s!"{heading}: rebuild")
  | .ok (.payload p) =>
    if p.isEmpty then
      console.status (·.unchanged seconds s!"{heading}: no hot-reload changes")
    else
      let (console, status) :=
        console.status (·.success seconds s!"{heading}: {p.summary}")
      let (console, line) := emit console p.text
      (console, status ++ line)
  | .error e =>
    console.status (·.failure seconds s!"cycle failed: {file.display}" e.fullMessage)

end HotReload.Watch
