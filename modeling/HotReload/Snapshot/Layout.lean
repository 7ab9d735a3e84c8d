import HotReload.Json.Layout
import HotReload.Snapshot

namespace HotReload.Json

def pathForm : Form Path := fun text p rest => ∃ s, p = .ofString s ∧ stringForm text s rest

/-- A tag may stand twice; then the last style counts. -/
def stylesForm : Form StyleMap := fun text m rest =>
  ∃ pairs, m = .ofPairs pairs ∧ pairsForm stringForm text pairs rest

def componentNames : List String := ["tagName"]

def moduleNames : List String := ["sourcePath", "compiledOutputPath", "localImports", "cmpMeta"]

def contextNames : List String := ["filesChanged", "filesWritten", "stylesUpdated", "isRebuild"]

def snapshotNames : List String := ["modules", "buildCtx"]

def componentForm : Form String := fun text tag rest =>
  ∃ members, RecordParts componentNames text members rest ∧ OthersFormed componentNames members ∧
    Gives members "tagName" stringForm tag

structure ModuleMembers (members : List (String × Part)) (m : Module) : Prop where
  source : Gives members "sourcePath" pathForm m.source
  output : MayGive members "compiledOutputPath" (optionalForm pathForm) none m.output
  imports : MayGive members "localImports" (listForm pathForm) [] m.imports
  tag : MayGive members "cmpMeta" (optionalForm componentForm) none m.tag
  others : OthersFormed moduleNames members

def moduleForm : Form Module := fun text m rest =>
  ∃ members, RecordParts moduleNames text members rest ∧ ModuleMembers members m

structure ContextMembers (members : List (String × Part)) (c : BuildContext) : Prop where
  changed : MayGive members "filesChanged" (optionalForm (listForm pathForm)) none c.changed
  written : MayGive members "filesWritten" (listForm pathForm) [] c.written
  styles : MayGive members "stylesUpdated" (optionalForm stylesForm) none c.styles
  isRebuild : MayGive members "isRebuild" boolForm false c.isRebuild
  others : OthersFormed contextNames members

def contextForm : Form BuildContext := fun text c rest =>
  ∃ members, RecordParts contextNames text members rest ∧ ContextMembers members c

structure SnapshotMembers (members : List (String × Part)) (s : Snapshot) : Prop where
  modules : MayGive members "modules" (listForm moduleForm) [] s.modules
  context : MayGive members "buildCtx" contextForm .initial s.context
  others : OthersFormed snapshotNames members

def snapshotForm : Form Snapshot := fun text s rest =>
  ∃ members, RecordParts snapshotNames text members rest ∧ SnapshotMembers members s

end HotReload.Json
