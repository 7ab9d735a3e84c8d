import HotReload.Path.Basic
import HotReload.StyleMap

namespace HotReload

structure BuildContext where
  /-- The files touched since the cycle before; absent for an initial build. -/
  changed : Option (List Path)
  written : List Path
  styles : Option StyleMap
  isRebuild : Bool
deriving DecidableEq, Repr

def BuildContext.initial : BuildContext := ⟨none, [], none, false⟩

end HotReload
