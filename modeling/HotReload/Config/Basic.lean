import HotReload.Path.Basic

namespace HotReload

inductive OutputKind where
  | www
  | dist
  | docs
  | other
deriving Repr, DecidableEq

def OutputKind.name : OutputKind → String
  | .www => "www"
  | .dist => "dist"
  | .docs => "docs"
  | .other => "other"

def OutputKind.ofName (s : String) : OutputKind :=
  if s = "www" then .www else if s = "dist" then .dist else if s = "docs" then .docs else .other

structure OutputTarget where
  kind : OutputKind
  dir : Path
deriving Repr, DecidableEq

structure DevServer where
  hotReload : Bool
deriving Repr, DecidableEq

inductive LogLevel where
  | info
  | debug
deriving Repr, DecidableEq

def LogLevel.name : LogLevel → String
  | .info => "info"
  | .debug => "debug"

structure ProjectConfig where
  /-- The file the configuration was read from; empty without one. -/
  configPath : Path
  root : Path
  title : Option String
  logLevel : LogLevel
  targets : List OutputTarget
  /-- Absent: no development server, and so no hot reload. -/
  devServer : Option DevServer
deriving Repr, DecidableEq

namespace ProjectConfig

def default : ProjectConfig := ⟨⟨[]⟩, ⟨[]⟩, none, .info, [], none⟩

def hotReloadEnabled (c : ProjectConfig) : Bool := c.devServer.any DevServer.hotReload

def isVerbose (c : ProjectConfig) : Bool := c.logLevel == .debug

def wwwDirs (targets : List OutputTarget) : List Path :=
  (targets.filter (·.kind == .www)).map OutputTarget.dir

/-- The name under which the project appears in messages: its title, else the name of its
root directory, else `project`. -/
def displayName (c : ProjectConfig) : String :=
  match c.title with
  | some t => t
  | none =>
    match c.root.fileName with
    | some n => Utf8.decodeLossy n
    | none => "project"

end ProjectConfig
end HotReload
