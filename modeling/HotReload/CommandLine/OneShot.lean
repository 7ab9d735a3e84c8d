import HotReload.Snapshot
import HotReload.Terminal.Log

namespace HotReload.OneShot

structure Answer where
  notes : List Note
  text : String

/-- The answer to a loaded snapshot. A forced run counts as a rebuild whatever the snapshot
says. -/
def ofSnapshot (config : ProjectConfig) (s : Snapshot) (force pretty : Bool) : Answer :=
  let ctx := { s.context with isRebuild := s.context.isRebuild || force }
  let registry := s.registry
  let payload := Payload.ofBuild? config registry ctx
  let changed := (ctx.changed.getD []).length
  let counts :=
    s!"{registry.size} modules, {changed} changed, {ctx.written.length} written"
  let reason :=
    s!"not a hot-reload cycle (rebuild: {ctx.isRebuild}, hot reload: {config.hotReloadEnabled})"
  let notes := [counts] ++ (Payload.note config registry ctx).toList ++
    (if payload.isNone then [reason] else [])
  ⟨notes.map Note.impact, Payload.render payload pretty⟩

def run (config : ProjectConfig) (view : FileView) (file : Path) (force pretty : Bool) :
    Except SnapshotError Answer :=
  (Snapshot.load view file).map fun s => ofSnapshot config s force pretty

end HotReload.OneShot
