import HotReload.BuildContext
import HotReload.Config.Basic
import HotReload.FileKind
import HotReload.Path.Folding
import HotReload.Path.SiteUrl
import HotReload.Text.ByteOrder

namespace HotReload.StyleChanges

def inline (ctx : BuildContext) : Option StyleMap :=
  if ctx.isRebuild then ctx.styles.filter (!·.entries.isEmpty) else none

/-- The URLs of all written stylesheets, one for each pair of a stylesheet and a `www`
directory, ascending, repeated ones kept. -/
def external (targets : List OutputTarget) (ctx : BuildContext) : Option (List String) :=
  let dirs := ProjectConfig.wwwDirs targets
  let sheets := ctx.written.filter Path.isStylesheet
  if !ctx.isRebuild || dirs.isEmpty || sheets.isEmpty then none
  else
    some (ByteOrder.sort
      (sheets.flatMap fun file => dirs.map fun dir => (Path.relativeTo dir file).siteUrl))

end HotReload.StyleChanges
