import HotReload.Terminal.Transcript
import HotReload.Watch.Session

namespace HotReload

/-- A report writes its status first, and then what stands below it. -/
def Display.ofReport : List Output → List Display
  | [] => []
  | first :: others => .status first.text :: others.map fun o => .below o.text

namespace Watch

def Session.displays (s : Session) (view : FileView) (seconds : Nat) : List Display :=
  let cycle := Cycle.run s.config view s.file s.completed
  (Note.logVerbose s.verbose cycle.notes).map (fun o => .note o.text) ++
    Display.ofReport (report s.console seconds s.file cycle).2

def Session.displaysOf (s : Session) : List (FileView × Nat) → List Display
  | [] => []
  | (view, seconds) :: later =>
    s.displays view seconds ++ (s.runCycle view seconds).1.displaysOf later

def Cycle.leavesBlock (c : Cycle) : Bool :=
  match c.outcome with
  | .ok (.payload p) => p.isEmpty
  | _ => true

def Cycle.history (config : ProjectConfig) (file : Path) (completed : Nat) :
    List FileView → List Cycle
  | [] => []
  | view :: views =>
    let c := Cycle.run config view file completed
    c :: history config file c.completed views

end Watch
end HotReload
