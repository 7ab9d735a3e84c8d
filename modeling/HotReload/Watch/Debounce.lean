import HotReload.Path.Basic

/-! Debouncing of file events.
A change of the watched file is taken once it has been quiet for a while and the last taking
lies far enough back. Times are milliseconds of a clock that never goes back. Compilers
often replace a file by renaming another one, so events are matched by file name only. -/
namespace HotReload.Watch

/-- What happened to a file. Details are kept where they are shown. -/
inductive EventKind where
  | createAny
  | createFile
  | createFolder
  | createOther
  | modifyAny
  | modifyDataAny
  | modifySize
  | modifyContent
  | modifyDataOther
  | renameAny
  | renameTo
  | renameFrom
  | renameBoth
  | renameOther
  | modifyOther
  /-- A change of times, permissions or owner: no new content. -/
  | metadata
  | remove
  | access
  | unspecified
  | other
deriving Repr, DecidableEq

/-- How an event that may bring new content is named; other events have no name here. -/
def EventKind.label? : EventKind → Option String
  | .createAny => some "Create(Any)"
  | .createFile => some "Create(File)"
  | .createFolder => some "Create(Folder)"
  | .createOther => some "Create(Other)"
  | .modifyAny => some "Modify(Any)"
  | .modifyDataAny => some "Modify(Data(Any))"
  | .modifySize => some "Modify(Data(Size))"
  | .modifyContent => some "Modify(Data(Content))"
  | .modifyDataOther => some "Modify(Data(Other))"
  | .renameAny => some "Modify(Name(Any))"
  | .renameTo => some "Modify(Name(To))"
  | .renameFrom => some "Modify(Name(From))"
  | .renameBoth => some "Modify(Name(Both))"
  | .renameOther => some "Modify(Name(Other))"
  | .modifyOther => some "Modify(Other)"
  | .metadata | .remove | .access | .unspecified | .other => none

def EventKind.bringsContent : EventKind → Bool
  | .metadata | .remove | .access | .unspecified | .other => false
  | _ => true

structure Event where
  kind : EventKind
  paths : List Path
deriving Repr, DecidableEq

structure Debouncer where
  /-- The name of the watched file; empty if its path ends in none. -/
  fileName : List UInt8
  debounce : Nat
  cooldown : Nat
  pending : Bool
  lastEvent : Option Nat
  lastCycle : Option Nat
deriving Repr, DecidableEq

namespace Debouncer

def defaultDebounce : Nat := 150
def defaultCooldown : Nat := 300

def idleSleep : Nat := 86400000

def withTiming (target : Path) (debounce cooldown : Nat) : Debouncer :=
  ⟨target.fileName.getD [], debounce, cooldown, false, none, none⟩

def ofTarget (target : Path) : Debouncer := withTiming target defaultDebounce defaultCooldown

def isRelevant (d : Debouncer) (e : Event) : Bool :=
  e.kind.bringsContent && e.paths.any (·.fileName == some d.fileName)

def addEvent (d : Debouncer) (now : Nat) (e : Event) : Debouncer :=
  if d.isRelevant e then { d with pending := true, lastEvent := some now } else d

def isReady (d : Debouncer) (now : Nat) : Bool :=
  match d.lastEvent with
  | none => false
  | some event =>
    if now - event < d.debounce then false
    else
      match d.lastCycle with
      | some cycle => if now - cycle < d.cooldown then false else d.pending
      | none => d.pending

def take (d : Debouncer) (now : Nat) : Bool × Debouncer :=
  if d.isReady now then
    (true, { d with pending := false, lastEvent := none, lastCycle := some now })
  else (false, d)

/-- How long to sleep until the pending change can be ready, at least a millisecond, on a clock
with `ticks` steps in a millisecond. -/
def sleepTicks (d : Debouncer) (ticks now : Nat) : Nat :=
  match d.lastEvent with
  | none => idleSleep * ticks
  | some event =>
    let quiet := d.debounce - (now - event)
    let rest := match d.lastCycle with
      | some cycle => d.cooldown - (now - cycle)
      | none => 0
    max (max quiet rest) ticks

def sleepTime (d : Debouncer) (now : Nat) : Nat := d.sleepTicks 1 now

end Debouncer
end HotReload.Watch
