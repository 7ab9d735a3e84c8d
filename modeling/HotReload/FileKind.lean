import HotReload.Path.Basic

namespace HotReload

inductive FileKind where
  | script
  | stylesheet
deriving Repr, DecidableEq

namespace FileKind

/-- The kind of an extension. Case counts: `TSX` is no script. -/
def ofExtension? (ext : String) : Option FileKind :=
  if ext = "ts" ∨ ext = "tsx" ∨ ext = "js" then some .script
  else if ext = "css" then some .stylesheet
  else none

def ofPath? (p : Path) : Option FileKind :=
  p.extension.bind fun ext => (Utf8.decode? ext).bind ofExtension?

end FileKind

namespace Path

def isScript (p : Path) : Bool := FileKind.ofPath? p == some .script

def isStylesheet (p : Path) : Bool := FileKind.ofPath? p == some .stylesheet

end Path
end HotReload
