import HotReload.Path.Basic

namespace HotReload

structure Module where
  source : Path
  /-- The emitted artifact, once compiled. -/
  output : Option Path
  imports : List Path
  tag : Option String
deriving Repr, DecidableEq

namespace Module

def bare (source : Path) : Module := ⟨source, none, [], none⟩

def isFile (m : Module) (file : Path) : Bool :=
  m.source.same file || m.output.any (·.same file)

end Module
end HotReload
