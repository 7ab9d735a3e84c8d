import HotReload.Snapshot
import HotReload.Terminal.Log

/-! One cycle of watch mode: load the snapshot and say what it means for the clients.
The first snapshot that loads is the initial build and every later one is a rebuild,
whatever the snapshot says of itself. A cycle that fails does not count. -/
namespace HotReload.Watch

inductive Outcome where
  | initial
  | disabled
  | payload (p : Payload)
deriving DecidableEq, Repr

/-- What a cycle read, the count of completed ones after it, its outcome, and what is noted on
the way. -/
structure Cycle where
  read : Except ReadFault (List UInt8)
  completed : Nat
  outcome : Except SnapshotError Outcome
  notes : List Note

namespace Cycle

/-- What a loaded snapshot means as the cycle after `completed` others. -/
def ofSnapshot (config : ProjectConfig) (read : Except ReadFault (List UInt8)) (completed : Nat)
    (s : Snapshot) : Cycle :=
  let ctx := { s.context with isRebuild := decide (0 < completed) }
  let outcome := match Payload.ofBuild? config s.registry ctx with
    | some p => .payload p
    | none => if ctx.isRebuild then .disabled else Outcome.initial
  let emptiness :=
    if s.registry.entries.isEmpty then [Note.watch "snapshot has no modules"] else []
  let search := (Payload.note config s.registry ctx).toList.map Note.impact
  ⟨read, completed + 1, .ok outcome, emptiness ++ search⟩

def ofContent (config : ProjectConfig) (file : Path) (completed : Nat)
    (read : Except ReadFault (List UInt8)) : Cycle :=
  match Snapshot.ofContent file read with
  | .error e => ⟨read, completed, .error e, []⟩
  | .ok s => ofSnapshot config read completed s

def run (config : ProjectConfig) (view : FileView) (file : Path) (completed : Nat) : Cycle :=
  ofContent config file completed (view.content file)

variable {config : ProjectConfig} {view : FileView} {file : Path} {completed : Nat}

theorem read_run : (run config view file completed).read = view.content file := by
  unfold run ofContent
  split <;> rfl

theorem run_of_fault {e : SnapshotError} (failed : Snapshot.load view file = .error e) :
    run config view file completed = ⟨view.content file, completed, .error e, []⟩ := by
  rw [Snapshot.load] at failed
  rw [run, ofContent, failed]

theorem run_of_load {s : Snapshot} (loaded : Snapshot.load view file = .ok s) :
    run config view file completed = ofSnapshot config (view.content file) completed s := by
  rw [Snapshot.load] at loaded
  rw [run, ofContent, loaded]

end Cycle
end HotReload.Watch
