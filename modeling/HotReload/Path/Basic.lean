import HotReload.Text.Utf8

/-! File system paths.
A path is a byte string that is read as a list of components. Its text is kept as given,
since it is printed and joined; what it denotes is decided by `components` alone, so two
spellings of one path are `same`. -/
namespace HotReload

structure Path where
  bytes : List UInt8
deriving Repr, DecidableEq, Inhabited

namespace Path

inductive Component where
  | root
  | current
  | parent
  | name (bytes : List UInt8)
deriving Repr, DecidableEq

inductive Lead where
  | root
  | current
  | nothing
deriving Repr, DecidableEq

def slash : UInt8 := 0x2F
def dot : UInt8 := 0x2E

def ofString (s : String) : Path := ⟨Utf8.encode s⟩

def text? (p : Path) : Option String := Utf8.decode? p.bytes

def display (p : Path) : String := Utf8.decodeLossy p.bytes

def isAbsolute (p : Path) : Bool := p.bytes.head? == some slash

/-- Cuts bytes at every slash; there is always one segment more than slashes. -/
def segments : List UInt8 → List (List UInt8)
  | [] => [[]]
  | b :: r =>
    if b = slash then [] :: segments r
    else
      match segments r with
      | [] => [[b]]
      | s :: ss => (b :: s) :: ss

def joinSegments : List (List UInt8) → List UInt8
  | [] => []
  | [s] => s
  | s :: t :: r => s ++ slash :: joinSegments (t :: r)

/-- The lead of a path and the segments of the text behind it. After a leading `.` this
text is empty or begins with a slash. -/
def split (p : Path) : Lead × List (List UInt8) :=
  match p.bytes with
  | [] => (.nothing, [[]])
  | b :: r =>
    if b = slash then (.root, segments r)
    else if b = dot ∧ (r = [] ∨ r.head? = some slash) then (.current, segments r)
    else (.nothing, segments (b :: r))

/-- The component a segment stands for; empty segments and `.` stand for none. -/
def segmentComponent? (s : List UInt8) : Option Component :=
  if s = [] then none
  else if s = [dot] then none
  else if s = [dot, dot] then some .parent
  else some (.name s)

def Lead.components : Lead → List Component
  | .root => [.root]
  | .current => [.current]
  | .nothing => []

def Lead.bytes : Lead → List UInt8
  | .root => [slash]
  | .current => [dot]
  | .nothing => []

def components (p : Path) : List Component :=
  p.split.1.components ++ p.split.2.filterMap segmentComponent?

def same (p q : Path) : Bool := p.components == q.components

/-- `q` seen from `p`: an absolute `q` replaces `p`. -/
def join (p q : Path) : Path :=
  if q.isAbsolute then q
  else if p.bytes = [] ∨ p.bytes.getLast? = some slash then ⟨p.bytes ++ q.bytes⟩
  else ⟨p.bytes ++ slash :: q.bytes⟩

def dropTrivialEnd (ss : List (List UInt8)) : List (List UInt8) :=
  (ss.reverse.dropWhile fun s => (segmentComponent? s).isNone).reverse

/-- The text in front of the last component, without separators and `.` at its end. The
empty path and the root have no parent. -/
def parent (p : Path) : Option Path :=
  match p.split.1, dropTrivialEnd p.split.2 with
  | .root, [] => none
  | .nothing, [] => none
  | .current, [] => some ⟨[]⟩
  | lead, ss => some ⟨lead.bytes ++ joinSegments (dropTrivialEnd ss.dropLast)⟩

def fileName (p : Path) : Option (List UInt8) :=
  match p.components.getLast? with
  | some (.name n) => some n
  | _ => none

/-- The bytes behind the last dot of the file name. A name whose only dot is its first
byte has no extension. -/
def extension (p : Path) : Option (List UInt8) :=
  match p.fileName with
  | none => none
  | some n =>
    let tail := (n.reverse.takeWhile (· != dot)).reverse
    let stemLength := n.length - tail.length - 1
    if tail.length < n.length ∧ 0 < stemLength then some tail else none

end Path
end HotReload
