import HotReload.FileKind
import HotReload.Registry.Reach
import HotReload.Text.ByteOrder

/-! The components whose definition a change makes stale.
A component is hit by a changed script when its module is that script, or reaches it along
registered imports. Files of other kinds hit nothing, even when a module is named so. -/
namespace HotReload.Impact

def scripts (changed : List Path) : List Path := changed.filter Path.isScript

def addHits (r : Registry) (script : Path) (hit : List String) :
    List (Module × String) → List String
  | [] => hit
  | (m, tag) :: cs =>
    if tag ∈ hit then addHits r script hit cs
    else if r.dependsOn m script then addHits r script (ByteOrder.insert tag hit) cs
    else addHits r script hit cs

def hitTags (r : Registry) (components : List (Module × String)) (scripts : List Path) :
    List String :=
  scripts.foldl (fun hit script => addHits r script hit components) []

/-- The tags to reload, found by going through `components` for each script. There are none
to report when no change list is known, when it names no script, or when no component is
hit. -/
def tagsAmong (r : Registry) (components : List (Module × String))
    (changed : Option (List Path)) : Option (List String) :=
  match changed with
  | none => none
  | some files =>
    match hitTags r components (scripts files) with
    | [] => none
    | ts => some ts

def tags (r : Registry) (changed : Option (List Path)) : Option (List String) :=
  tagsAmong r r.components changed

def note (r : Registry) (changed : Option (List Path)) : Option String :=
  match changed.map scripts with
  | none | some [] => none
  | some ss =>
    let count := (hitTags r r.components ss).length
    some s!"{ss.length} script change(s) impacted {count} component(s)"

end HotReload.Impact
