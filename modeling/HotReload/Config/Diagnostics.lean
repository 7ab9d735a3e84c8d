import HotReload.Terminal.Log

namespace HotReload.Config

structure Diagnostic where
  field : String
  message : String
  hint : Option String
deriving Repr, DecidableEq

structure Warning where
  field : String
  message : String
deriving Repr, DecidableEq

structure Diagnostics where
  errors : List Diagnostic
  warnings : List Warning
deriving Repr, DecidableEq

open Ansi in
def Diagnostic.display (d : Diagnostic) : String :=
  let place := dim.paint "[" ++ cyan.paint d.field ++ dim.paint "]"
  let advice := match d.hint with
    | none => ""
    | some hint =>
      let label := yellow.paint "hint:"
      s!"\n  {label} {hint}"
  let arrow := red.paint "→"
  s!"{place}\n{arrow} {d.message}{advice}"

namespace Diagnostics

open Ansi in
def display (d : Diagnostics) : String :=
  let heading := bold.paint (red.paint "config validation failed:")
  let list := "\n\n".intercalate (d.errors.map Diagnostic.display)
  let found := dim.paint "found"
  let count := bold.paint (red.paint (toString d.errors.length))
  let noun := dim.paint "errors"
  let footing := if 1 < d.errors.length then s!"\n\n{found} {count} {noun}" else ""
  s!"{heading}\n\n{list}{footing}"

def warningNotes (d : Diagnostics) : List Note :=
  d.warnings.map fun w => .warning s!"[{w.field}] {w.message}"

def toResult (d : Diagnostics) : Except Diagnostics Unit :=
  if d.errors.isEmpty then .ok () else .error d

end Diagnostics
end HotReload.Config
