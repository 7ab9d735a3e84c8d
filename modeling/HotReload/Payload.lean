import HotReload.Impact
import HotReload.StyleChanges

/-! The hot-reload payload: the least a client must be told about one rebuild.
A part that has nothing to say is absent, never empty, since clients ask for presence. -/
namespace HotReload

structure Payload where
  components : Option (List String)
  styles : Option StyleMap
  stylesheets : Option (List String)
deriving DecidableEq, Repr

namespace Payload

def nothing : Payload := ⟨none, none, none⟩

def withComponents (p : Payload) (tags : Option (List String)) : Payload :=
  { p with components := tags.filter (!·.isEmpty) }

def withStyles (p : Payload) (styles : Option StyleMap) : Payload :=
  { p with styles := styles.filter (!·.entries.isEmpty) }

def withStylesheets (p : Payload) (urls : Option (List String)) : Payload :=
  { p with stylesheets := urls.filter (!·.isEmpty) }

def isEmpty (p : Payload) : Bool :=
  p.components.isNone && p.styles.isNone && p.stylesheets.isNone

/-- A count with its noun, in the singular for exactly one. -/
def counted (n : Nat) (noun : String) : String :=
  if n = 1 then s!"1 {noun}" else s!"{n} {noun}s"

/-- The present parts with their sizes, such as `2 components, 1 stylesheet`. -/
def summary (p : Payload) : String :=
  let parts :=
    (p.components.map fun ts => counted ts.length "component").toList ++
    (p.styles.map fun s => counted s.entries.length "inline style").toList ++
    (p.stylesheets.map fun us => counted us.length "stylesheet").toList
  if parts.isEmpty then "no changes" else ", ".intercalate parts

def eligible (config : ProjectConfig) (ctx : BuildContext) : Bool :=
  ctx.isRebuild && config.hotReloadEnabled

/-- The payload of one build cycle, or none where hot reload does not apply. -/
def ofBuild? (config : ProjectConfig) (r : Registry) (ctx : BuildContext) : Option Payload :=
  if eligible config ctx then
    some (((nothing.withComponents (Impact.tags r ctx.changed)).withStyles
      (StyleChanges.inline ctx)).withStylesheets (StyleChanges.external config.targets ctx))
  else none

def note (config : ProjectConfig) (r : Registry) (ctx : BuildContext) : Option String :=
  if eligible config ctx then Impact.note r ctx.changed else none

end Payload
end HotReload
