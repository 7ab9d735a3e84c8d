import HotReload.FileSystem.View
import HotReload.Registry
import HotReload.Snapshot.Text

namespace HotReload

structure Snapshot where
  modules : List Module
  context : BuildContext
deriving DecidableEq, Repr

inductive SnapshotError where
  | unreadable (file : Path) (fault : ReadFault)
  | malformed (file : Path) (fault : Json.Fault)
deriving Repr, DecidableEq

namespace SnapshotError

def message : SnapshotError → String
  | .unreadable file _ => s!"IO error when reading snapshot `{file.display}`"
  | .malformed file _ => s!"malformed snapshot `{file.display}`"

def cause : SnapshotError → String
  | .unreadable _ fault => fault.message
  | .malformed _ fault => fault.message

def fullMessage (e : SnapshotError) : String := e.message ++ ": " ++ e.cause

end SnapshotError

namespace Json

def snapshotRecord : Record Snapshot Snapshot where
  fields := [
    field "modules" (readList moduleRecord.read) fun s ms => { s with modules := ms },
    field "buildCtx" contextRecord.read fun s c => { s with context := c }]
  blank := ⟨[], .initial⟩
  finish := some

end Json

namespace Snapshot

def ofText (text : String) : Except Json.Fault Snapshot :=
  Json.readWhole Json.snapshotRecord.read text.toList

def ofContent (file : Path) (content : Except ReadFault (List UInt8)) :
    Except SnapshotError Snapshot :=
  match FileView.textOf content with
  | .error e => .error (.unreadable file e)
  | .ok text =>
    match ofText text with
    | .error e => .error (.malformed file e)
    | .ok s => .ok s

def load (view : FileView) (file : Path) : Except SnapshotError Snapshot :=
  ofContent file (view.content file)

def registry (s : Snapshot) : Registry := .ofList s.modules

section Loading

variable {view : FileView} {file : Path} {bytes : List UInt8} {text : String}

theorem load_eq_ok_iff {s : Snapshot} :
    load view file = .ok s ↔ ∃ bytes text, view.content file = .ok bytes ∧
      Utf8.decode? bytes = some text ∧ ofText text = .ok s := by
  unfold load ofContent FileView.textOf
  cases view.content file with
  | error e => simp
  | ok bytes =>
    cases decoded : Utf8.decode? bytes with
    | none => simp [decoded]
    | some text => cases parsed : ofText text <;> simp [decoded, parsed]

theorem load_of_unreadable {fault : ReadFault} (content : view.content file = .error fault) :
    load view file = .error (.unreadable file fault) := by
  simp only [load, ofContent, FileView.textOf, content]

theorem load_of_notText (content : view.content file = .ok bytes)
    (decoded : Utf8.decode? bytes = none) :
    load view file = .error (.unreadable file .notText) := by
  simp only [load, ofContent, FileView.textOf, content, decoded]

theorem load_of_malformed {fault : Json.Fault} (content : view.content file = .ok bytes)
    (decoded : Utf8.decode? bytes = some text) (parsed : ofText text = .error fault) :
    load view file = .error (.malformed file fault) := by
  simp only [load, ofContent, FileView.textOf, content, decoded, parsed]

end Loading

end Snapshot
end HotReload
