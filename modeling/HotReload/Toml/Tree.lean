/-! TOML documents as trees of tables, and the rules by which lines build them.
Keys keep the order in which they were first written. A table remembers how it came about,
since that decides who may still add to it: a header may go through anything but a value,
a dotted key only through tables that no line has defined as a whole. -/
namespace HotReload.Toml

inductive Origin where
  /-- By a header of its own. -/
  | header
  /-- As a parent that a header names on its way. -/
  | implied
  /-- By a dotted key. -/
  | dotted
  /-- Written in braces, complete from the start. -/
  | closed
deriving Repr, DecidableEq

/-- A node of the tree. Floats and dates keep their text only. -/
inductive Node where
  | string (s : String)
  | integer (value : Int)
  | float (literal : String)
  | boolean (b : Bool)
  | datetime (literal : String)
  | array (items : List Node)
  | table (origin : Origin) (entries : List (String × Node))
  | tables (elements : List (List (String × Node)))
deriving Repr, Inhabited

abbrev Entries := List (String × Node)

namespace Entries

def get? (es : Entries) (k : String) : Option Node := (es.find? (·.1 == k)).map Prod.snd

def set (es : Entries) (k : String) (v : Node) : Entries :=
  es.map fun e => if e.1 == k then (k, v) else e

def erase (es : Entries) (k : String) : Entries := es.filter (·.1 != k)

/-- Changes the table at the end of a path. Missing tables on the way are made, by a dotted
key or by a header; of several tables under one name the last is meant. -/
def modify {α : Type} (byDottedKey : Bool) (change : Origin → Entries → Option (Entries × α)) :
    List String → Origin → Entries → Option (Entries × α)
  | [], origin, es => change origin es
  | k :: path, _, es =>
    match es.get? k with
    | none =>
      let origin := if byDottedKey then .dotted else Origin.implied
      (modify byDottedKey change path origin []).map fun r =>
        (es ++ [(k, .table origin r.1)], r.2)
    | some (.table origin inner) =>
      let mayEnter := match origin with
        | .implied | .dotted => true
        | .header => !byDottedKey
        | .closed => false
      if mayEnter then
        (modify byDottedKey change path origin inner).map fun r =>
          (es.set k (.table origin r.1), r.2)
      else none
    | some (.tables elements) =>
      match elements.getLast? with
      | none => none
      | some last =>
        (modify byDottedKey change path .header last).map fun r =>
          (es.set k (.tables (elements.dropLast ++ [r.1])), r.2)
    | some _ => none

/-- Adds a key with its value to a table that may be extended in this way: a plain key to
any, a dotted one to a table that dotted keys have made. -/
def define (origin : Origin) (es : Entries) (path : List String) (k : String) (v : Node) :
    Option Entries :=
  (modify true (fun origin es =>
    let mixed := decide (origin = .dotted) == path.isEmpty
    if mixed || (es.get? k).isSome then none else some (es ++ [(k, v)], ()))
    path origin es).map Prod.fst

end Entries

def Entries.ofPairs (pairs : List (List String × Node)) : Option Entries :=
  pairs.foldlM (fun es pair =>
    match pair.1.getLast? with
    | none => none
    | some k => es.define .closed pair.1.dropLast k pair.2) []

/-- A document on the way: what is complete, and the table that lines are added to. -/
structure Document where
  root : Entries
  current : Entries
  /-- The header of the current table; empty in front of the first header. -/
  path : List String
  isElement : Bool
deriving Repr

namespace Document

def empty : Document := ⟨[], [], [], false⟩

def complete (d : Document) : Option Entries :=
  match d.path.getLast? with
  | none => some d.current
  | some k =>
    (d.root.modify false (fun _ es =>
      if d.isElement then
        match es.get? k with
        | none => some (es ++ [(k, .tables [d.current])], ())
        | some (.tables elements) => some (es.set k (.tables (elements ++ [d.current])), ())
        | some _ => none
      else
        match es.get? k with
        | none => some (es ++ [(k, .table .header d.current)], ())
        | some _ => none) d.path.dropLast .header).map Prod.fst

def addValue (d : Document) (path : List String) (v : Node) : Option Document :=
  match path.getLast? with
  | none => none
  | some k => (d.current.define .header path.dropLast k v).map fun es => { d with current := es }

/-- Begins the table of a header. A parent that was only implied so far moves to the end and
is taken up again; any other table must not be defined twice. -/
def beginTable (d : Document) (path : List String) : Option Document :=
  match d.complete, path.getLast? with
  | some root, some k =>
    (root.modify false (fun _ es =>
      match es.get? k with
      | none => some (es, [])
      | some (.table .implied inner) => some (es.erase k, inner)
      | some _ => none) path.dropLast .header).map fun r => ⟨r.1, r.2, path, false⟩
  | _, _ => none

def beginElement (d : Document) (path : List String) : Option Document :=
  match d.complete, path.getLast? with
  | some root, some k =>
    (root.modify false (fun _ es =>
      match es.get? k with
      | none => some (es ++ [(k, .tables [])], ())
      | some (.tables _) => some (es, ())
      | some _ => none) path.dropLast .header).map fun r => ⟨r.1, [], path, true⟩
  | _, _ => none

end Document
end HotReload.Toml
