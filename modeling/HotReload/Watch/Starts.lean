import HotReload.Watch.World
import Mathlib.Data.List.Chain

namespace HotReload.Watch

structure Start where
  time : Nat
  atStartup : Bool
deriving Repr, DecidableEq

/-- Each cycle began at least `gap` after the one before it. The latest one stands first. -/
def Spaced (gap : Nat) (starts : List Start) : Prop :=
  starts.IsChain fun later earlier => earlier.time + gap ≤ later.time

namespace World

def begun? (w v : World) : Option Start :=
  if w.phase = .cycling ∨ v.phase ≠ .cycling then none
  else some ⟨w.time.now, decide (w.phase = .starting)⟩

inductive Run (first : World) : World → List Start → Prop where
  | refl : Run first first []
  | tail {w v : World} {starts : List Start} (run : Run first w starts) (step : Step w v) :
      Run first v ((begun? w v).toList ++ starts)

end World
end HotReload.Watch
