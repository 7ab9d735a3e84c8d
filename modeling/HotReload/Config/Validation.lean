import HotReload.Config.Basic
import HotReload.Config.Diagnostics

namespace HotReload.Config

def emptyDirErrors (targets : List OutputTarget) : List Diagnostic :=
  targets.zipIdx.filterMap fun t =>
    if t.1.dir.bytes.isEmpty then
      some ⟨s!"output_targets[{t.2}].dir", "output directory must not be empty",
        some "set `dir` to the directory this target writes to"⟩
    else none

def repeatedDirs (earlier : List Path) : List Path → List Path
  | [] => []
  | d :: ds =>
    if earlier.any (·.same d) then d :: repeatedDirs (d :: earlier) ds
    else repeatedDirs (d :: earlier) ds

/-- A warning for each `www` target that repeats a directory: every stylesheet would be
reported once more for it. -/
def repeatedDirWarnings (targets : List OutputTarget) : List Warning :=
  (repeatedDirs [] (ProjectConfig.wwwDirs targets)).map fun d =>
    ⟨"output_targets", s!"duplicate www target dir `{d.display}`"⟩

def targetDiagnostics (targets : List OutputTarget) : Diagnostics :=
  ⟨emptyDirErrors targets, repeatedDirWarnings targets⟩

def serverWarnings (c : ProjectConfig) : List Warning :=
  if c.devServer.isSome && !c.targets.any (·.kind == .www) then
    [⟨"dev_server", "no www output target: external stylesheet updates are disabled"⟩]
  else []

def diagnostics (c : ProjectConfig) : Diagnostics :=
  let d := targetDiagnostics c.targets
  { d with warnings := d.warnings ++ serverWarnings c }

end HotReload.Config
