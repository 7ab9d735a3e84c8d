import HotReload.Config.Schema
import HotReload.Config.Validation
import HotReload.FileSystem.View
import HotReload.Path.Ancestors
import HotReload.Toml.Reader

/-! Finding and loading the configuration file.
The nearest file of the given name, from the working directory upwards, is the one that
counts. Without a file the defaults apply, which leaves hot reload off. -/
namespace HotReload

namespace Config

def candidates (name start : Path) : List Path :=
  if name.isAbsolute then [name] else start.ancestors.map (·.join name)

def find? (isPresent : Path → Bool) (name start : Path) : Option Path :=
  (candidates name start).find? isPresent

inductive LoadError where
  | unreadable (file : Path) (fault : ReadFault)
  /-- The text is no TOML, or a value has the wrong type. -/
  | malformed
  | invalid (d : Diagnostics)
deriving Repr, DecidableEq

namespace LoadError

def message : LoadError → String
  | .unreadable file _ => s!"IO error when reading `{file.display}`"
  | .malformed => "Config file parsing error"
  | .invalid d => d.display

def fullMessage (e : LoadError) : String :=
  match e with
  | .unreadable _ fault => s!"{e.message}: {fault.message}"
  | .malformed => s!"{e.message}: TOML parse error"
  | .invalid _ => e.message

end LoadError

structure Loading (α : Type) where
  result : Except LoadError α
  notes : List Note

def ofText? (text : String) : Reading ProjectConfig := (Toml.parse? text).bind ofTree

def unknownNotes (file : Path) (keys : List String) : List Note :=
  let name := match file.fileName with
    | some n => Utf8.decodeLossy n
    | none => file.display
  let list := ", ".intercalate keys
  if keys.isEmpty then [] else [.warning s!"unknown fields in {name} (ignored): {list}"]

end Config

namespace OutputTarget

def resolve (t : OutputTarget) (root : Path) : OutputTarget :=
  if t.dir.isAbsolute then t else { t with dir := root.join t.dir }

end OutputTarget

namespace ProjectConfig

open Config

def resolveDirs (c : ProjectConfig) : ProjectConfig :=
  { c with targets := c.targets.map (·.resolve c.root) }

/-- Loads the configuration file at the given place. Validation comes before directories are
resolved, since joining turns an empty one into the root. -/
def load (view : FileView) (file : Path) : Loading ProjectConfig :=
  match view.readText file with
  | .error e => ⟨.error (.unreadable file e), []⟩
  | .ok text =>
    match ofText? text with
    | none => ⟨.error .malformed, []⟩
    | some (parsed, unknown) =>
      let place := view.normalize file
      let config := { parsed with configPath := place, root := place.parent.getD ⟨[]⟩ }
      let found := diagnostics config
      let result := match found.toResult with
        | .error d => .error (.invalid d)
        | .ok _ => .ok config.resolveDirs
      ⟨result, unknownNotes file unknown ++ found.warningNotes⟩

def discover (view : FileView) (name : Path) (verbose : Bool) : Loading ProjectConfig :=
  let found := match Config.find? view.isPresent name view.workingDirectory with
    | some file => load view file
    | none =>
      ⟨.ok { default with root := view.normalize view.workingDirectory },
        [.warning s!"config file '{name.display}' not found, hot reload disabled"]⟩
  { found with
    result := found.result.map fun c => if verbose then { c with logLevel := .debug } else c }

end ProjectConfig
end HotReload
