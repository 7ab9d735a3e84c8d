import HotReload.FileSystem.View

/-! A file system held in memory.
It answers a view the way a disk would: `..` leaves the directory that was really entered,
links are followed at most forty times, and what stands in front of a slash must be a
directory. -/
namespace HotReload.FileSystem

/-- The names that lead from the root to a place, none of them a link. -/
abbrev Location := List (List UInt8)

inductive Entry where
  | directory
  | file (content : List UInt8)
  | link (target : Path)
  | pipe
deriving Repr, DecidableEq

structure Tree where
  entries : List (Location × Entry)
  workingDirectory : Location

namespace Tree

def empty : Tree := ⟨[], []⟩

def entry? (t : Tree) (place : Location) : Option Entry :=
  if place = [] then some .directory else (t.entries.find? (·.1 == place)).map Prod.snd

def set (t : Tree) (place : Location) (e : Entry) : Tree :=
  { t with entries := (place, e) :: t.entries.filter (·.1 != place) }

def erase (t : Tree) (place : Location) : Tree :=
  { t with entries := t.entries.filter (·.1 != place) }

def spell (place : Location) : Path :=
  match place with
  | [] => ⟨[Path.slash]⟩
  | names => ⟨names.flatMap (Path.slash :: ·)⟩

def origin (p : Path) (current : Location) : Location := if p.isAbsolute then [] else current

/-- Follows segments from a place; `links` more links may be met. -/
def follow (t : Tree) (links : Nat) (place : Location) (segments : List (List UInt8)) :
    Except ReadFault Location :=
  match segments with
  | [] => .ok place
  | s :: rest =>
    if t.entry? place ≠ some .directory then .error .notDirectory
    else if s = [] ∨ s = [Path.dot] then t.follow links place rest
    else if s = [Path.dot, Path.dot] then t.follow links place.dropLast rest
    else if 255 < s.length then .error .nameTooLong
    else
      match t.entry? (place ++ [s]) with
      | none => .error .notFound
      | some (.link target) =>
        match links with
        | 0 => .error .linkLoop
        | n + 1 => t.follow n (origin target place) (Path.segments target.bytes ++ rest)
      | some _ => t.follow links (place ++ [s]) rest
termination_by (links, segments.length)

def resolve (t : Tree) (p : Path) : Except ReadFault Location :=
  if p.bytes.contains 0 then .error .nulInPath
  else if p.bytes.isEmpty then .error .notFound
  else if 4095 < p.bytes.length then .error .nameTooLong
  else t.follow 40 (origin p t.workingDirectory) (Path.segments p.bytes)

def content (t : Tree) (p : Path) : Except ReadFault (List UInt8) :=
  match t.resolve p with
  | .error e => .error e
  | .ok place =>
    match t.entry? place with
    | some (.file bytes) => .ok bytes
    | some .pipe => .error .interrupted
    | some .directory => .error .isDirectory
    | _ => .error .notFound

def view (t : Tree) : FileView where
  workingDirectory := spell t.workingDirectory
  isPresent p := (t.resolve p).toBool
  canonical p := (t.resolve p).toOption.map spell
  content := t.content

def makeDirectories (t : Tree) (place : Location) : Tree :=
  (List.range (place.length + 1)).foldl (fun t n =>
    if (t.entry? (place.take n)).isSome then t else t.set (place.take n) .directory) t

def add (t : Tree) (place : Location) (e : Entry) : Tree :=
  (t.makeDirectories place.dropLast).set place e

/-- The place of the entry that a path names: its last name is not followed if it is a
link. -/
def placeOf (t : Tree) (p : Path) : Except ReadFault Location :=
  match p.fileName, p.parent with
  | some name, some above =>
    let directory := if above.bytes.isEmpty then .ok t.workingDirectory else t.resolve above
    directory.map (· ++ [name])
  | _, _ => .error .notFound

def replace (t : Tree) (p : Path) (content : List UInt8) : Tree :=
  match t.placeOf p with
  | .error _ => t
  | .ok place => if t.entry? place = some .directory then t else t.set place (.file content)

def write (t : Tree) (p : Path) (content : List UInt8) : Tree :=
  match t.resolve p with
  | .ok place => if t.entry? place = some .directory then t else t.set place (.file content)
  | .error _ => t.replace p content

def remove (t : Tree) (p : Path) : Tree :=
  match t.placeOf p with
  | .error _ => t
  | .ok place => if t.entry? place = some .directory then t else t.erase place

end Tree
end HotReload.FileSystem
