import HotReload.Payload
import HotReload.Proofs.Impact

namespace HotReload

theorem ProjectConfig.wwwDirs_eq_nil_iff {targets : List OutputTarget} :
    wwwDirs targets = [] ↔ ¬ ∃ t ∈ targets, t.kind = .www := by
  simp only [wwwDirs, List.map_eq_nil_iff, List.filter_eq_nil_iff, beq_iff_eq, not_exists,
    not_and]

namespace StyleChanges

variable {targets : List OutputTarget} {ctx : BuildContext}

theorem inline_of_rebuild (rebuild : ctx.isRebuild = true) :
    inline ctx = ctx.styles.filter (!·.entries.isEmpty) := by
  rw [inline, if_pos rebuild]

theorem external_isSome_iff (rebuild : ctx.isRebuild = true) :
    (external targets ctx).isSome = true ↔
      (∃ t ∈ targets, t.kind = .www) ∧ ∃ f ∈ ctx.written, f.isStylesheet = true := by
  have sheets : ctx.written.filter Path.isStylesheet = [] ↔
      ¬ ∃ f ∈ ctx.written, f.isStylesheet = true := by
    simp only [List.filter_eq_nil_iff, not_exists, not_and]
  simp only [external, rebuild, Bool.not_true, Bool.false_or, Bool.or_eq_true, List.isEmpty_iff,
    ProjectConfig.wwwDirs_eq_nil_iff, sheets]
  split
  · rename_i absent
    refine iff_of_false (fun impossible => by cases impossible) ?_
    rintro ⟨dirs, listed⟩
    exact absent.elim (· dirs) (· listed)
  · rename_i present
    obtain ⟨dirs, listed⟩ := not_or.mp present
    exact iff_of_true rfl ⟨Classical.not_not.mp dirs, Classical.not_not.mp listed⟩

/-- There is a URL for each pair, and so at least one. -/
theorem ne_nil_of_external {urls : List String} (reported : external targets ctx = some urls) :
    urls ≠ [] := by
  simp only [external] at reported
  split at reported
  · cases reported
  · rename_i present
    simp only [Bool.or_eq_true, List.isEmpty_iff, not_or] at present
    obtain ⟨⟨_, dirs⟩, sheets⟩ := present
    obtain ⟨dir, dir_listed⟩ := List.exists_mem_of_ne_nil _ dirs
    obtain ⟨sheet, sheet_listed⟩ := List.exists_mem_of_ne_nil _ sheets
    cases reported
    intro empty
    have url : (Path.relativeTo dir sheet).siteUrl ∈ ByteOrder.sort
        ((ctx.written.filter Path.isStylesheet).flatMap fun file =>
          (ProjectConfig.wwwDirs targets).map fun dir => (Path.relativeTo dir file).siteUrl) := by
      rw [ByteOrder.sort, List.mem_mergeSort]
      exact List.mem_flatMap.mpr ⟨sheet, sheet_listed, List.mem_map_of_mem dir_listed⟩
    rw [empty] at url
    cases url

end StyleChanges

namespace Payload

variable {config : ProjectConfig} {r : Registry} {ctx : BuildContext}

theorem filter_of_forall {α : Type} {v : Option α} {keep : α → Bool}
    (kept : ∀ a, v = some a → keep a = true) : v.filter keep = v := by
  cases v with
  | none => rfl
  | some a => rw [Option.filter_some, if_pos (kept a rfl)]

theorem eligible_eq_false_iff :
    eligible config ctx = false ↔ ctx.isRebuild = false ∨ config.devServer = none ∨
      ∃ d, config.devServer = some d ∧ d.hotReload = false := by
  rw [eligible, Bool.and_eq_false_iff, ProjectConfig.hotReloadEnabled]
  cases config.devServer with
  | none => simp
  | some d => simp

theorem ofBuild?_eq_none_iff :
    ofBuild? config r ctx = none ↔ eligible config ctx = false := by
  unfold ofBuild?
  split
  · rename_i applies
    simp [applies]
  · rename_i gated
    simpa using gated

/-- The builder drops nothing of what the three parts report. -/
theorem ofBuild?_of_eligible (applies : eligible config ctx = true) :
    ofBuild? config r ctx = some ⟨Impact.tags r ctx.changed,
      ctx.styles.filter (!·.entries.isEmpty), StyleChanges.external config.targets ctx⟩ := by
  have rebuild : ctx.isRebuild = true := (Bool.and_eq_true_iff.mp applies).1
  have tags : (Impact.tags r ctx.changed).filter (!·.isEmpty) = Impact.tags r ctx.changed :=
    filter_of_forall fun ts reported => by simpa using (Impact.tags_spec reported).1
  have styles : (ctx.styles.filter (!·.entries.isEmpty)).filter (!·.entries.isEmpty) =
      ctx.styles.filter (!·.entries.isEmpty) :=
    filter_of_forall fun m kept => (Option.filter_eq_some_iff.mp kept).2
  have urls : (StyleChanges.external config.targets ctx).filter (!·.isEmpty) =
      StyleChanges.external config.targets ctx :=
    filter_of_forall fun us reported => by simpa using StyleChanges.ne_nil_of_external reported
  rw [ofBuild?, if_pos applies]
  simp only [withComponents, withStyles, withStylesheets, nothing,
    StyleChanges.inline_of_rebuild rebuild, tags, styles, urls]

theorem styles_isSome_iff {styles : Option StyleMap} :
    (styles.filter (!·.entries.isEmpty)).isSome = true ↔
      ∃ m, styles = some m ∧ m.entries ≠ [] := by
  rw [Option.isSome_iff_exists]
  simp only [Option.filter_eq_some_iff, Bool.not_eq_true', List.isEmpty_eq_false_iff]

end Payload
end HotReload
