import HotReload.Path.Basic

/-! Lexical folding and relative paths.
Folding drops `.` and lets `..` remove the name in front of it, without asking the file
system. Above the root nothing is left to remove; in front of a relative path the `..`
stays. Two paths with one folded form denote the same place lexically. -/
namespace HotReload.Path

/-- Takes one component into account. The last component stands first in `done`. -/
def foldStep (done : List Component) : Component → List Component
  | .current => done
  | .parent =>
    match done with
    | .name _ :: above => above
    | .root :: above => .root :: above
    | _ => .parent :: done
  | c => c :: done

def foldComponents (cs : List Component) : List Component := (cs.foldl foldStep []).reverse

def folded (p : Path) : List Component := foldComponents p.components

def Component.bytes : Component → List UInt8
  | .root => [slash]
  | .current => [dot]
  | .parent => [dot, dot]
  | .name n => n

/-- Appends one component; the root starts the path anew. -/
def push (p : Path) (c : Component) : Path := p.join ⟨c.bytes⟩

def ofComponents (cs : List Component) : Path := cs.foldl push ⟨[]⟩

def commonLength : List Component → List Component → Nat
  | a :: as, b :: bs => if a = b then commonLength as bs + 1 else 0
  | _, _ => 0

/-- One `..` for each component of `base` beyond the common front, then what is left of
`target`. -/
def relativeComponents (base target : List Component) : List Component :=
  let common := commonLength base target
  List.replicate (base.length - common) .parent ++ target.drop common

/-- The path that leads from the directory `base` to `target`, both folded first. -/
def relativeTo (base target : Path) : Path :=
  ofComponents (relativeComponents base.folded target.folded)

end HotReload.Path
