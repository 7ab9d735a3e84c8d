import HotReload.Config.Loading
import HotReload.Proofs.PathComponents

/-! Which repeated `www` directories are reported.
Directories are compared as they are written, before they are resolved. For two that begin alike
this makes no difference; two that begin differently are never found to be the same, even where
both resolve to one directory. -/
namespace HotReload

namespace Config

def duplicateWarning (d : Path) : Warning :=
  ⟨"output_targets", s!"duplicate www target dir `{d.display}`"⟩

def ReportsDuplicate (c : ProjectConfig) : Prop :=
  ∃ d, duplicateWarning d ∈ (diagnostics c).warnings

/-- Two `www` targets at different positions, the earlier one first, are related in this way. -/
def SitePair (related : OutputTarget → OutputTarget → Prop) (targets : List OutputTarget) :
    Prop :=
  ∃ (i j : Nat) (a b : OutputTarget), i < j ∧ targets[i]? = some a ∧ targets[j]? = some b ∧
    a.kind = .www ∧ b.kind = .www ∧ related a b

def SameDir (a b : OutputTarget) : Prop := a.dir.components = b.dir.components

/-- The directories begin alike: at the root, with a `.`, or with a name or `..`. -/
def BeginAlike (a b : OutputTarget) : Prop := a.dir.split.1 = b.dir.split.1

variable {targets : List OutputTarget} {related : OutputTarget → OutputTarget → Prop}

theorem sitePair_iff_not_pairwise :
    SitePair related targets ↔
      ¬ (targets.filter (·.kind == .www)).Pairwise fun a b => ¬ related a b := by
  rw [List.pairwise_filter, List.pairwise_iff_getElem]
  constructor
  · rintro ⟨i, j, a, b, before, at_i, at_j, site_a, site_b, pair⟩ apart
    obtain ⟨bound_i, rfl⟩ := List.getElem?_eq_some_iff.mp at_i
    obtain ⟨bound_j, rfl⟩ := List.getElem?_eq_some_iff.mp at_j
    exact apart i j bound_i bound_j before (by simp [site_a]) (by simp [site_b]) pair
  · intro together
    apply Classical.byContradiction
    intro none
    apply together
    intro i j bound_i bound_j before site_a site_b pair
    exact none ⟨i, j, _, _, before, List.getElem?_eq_getElem bound_i,
      List.getElem?_eq_getElem bound_j, by simpa using site_a, by simpa using site_b, pair⟩

theorem repeatedDirs_eq_nil_iff (earlier ds : List Path) :
    repeatedDirs earlier ds = [] ↔
      (∀ d ∈ ds, ∀ e ∈ earlier, e.components ≠ d.components) ∧
        ds.Pairwise fun a b => a.components ≠ b.components := by
  induction ds generalizing earlier with
  | nil => simp [repeatedDirs]
  | cons d ds ih =>
    rw [repeatedDirs, List.pairwise_cons]
    split
    · rename_i met
      obtain ⟨e, member, same⟩ := List.any_eq_true.mp met
      constructor
      · intro empty
        cases empty
      · rintro ⟨fresh, -⟩
        exact absurd (Path.same_iff.mp same) (fresh d List.mem_cons_self e member)
    · rename_i fresh
      have differs : ∀ e ∈ earlier, e.components ≠ d.components := by
        intro e member same
        exact fresh (List.any_eq_true.mpr ⟨e, member, Path.same_iff.mpr same⟩)
      rw [ih]
      constructor
      · rintro ⟨later, apart⟩
        refine ⟨fun x member => ?_, fun x member => later x member d List.mem_cons_self, apart⟩
        rcases List.mem_cons.mp member with rfl | member
        · exact differs
        · exact fun e old => later x member e (List.mem_cons_of_mem _ old)
      · rintro ⟨all, first, apart⟩
        refine ⟨fun x member e old => ?_, apart⟩
        rcases List.mem_cons.mp old with rfl | old
        · exact first x member
        · exact all x (List.mem_cons_of_mem _ member) e old

theorem reportsDuplicate_iff (c : ProjectConfig) :
    ReportsDuplicate c ↔ repeatedDirs [] (ProjectConfig.wwwDirs c.targets) ≠ [] := by
  have listed : (diagnostics c).warnings =
      (repeatedDirs [] (ProjectConfig.wwwDirs c.targets)).map duplicateWarning ++
        serverWarnings c := rfl
  constructor
  · rintro ⟨d, member⟩ none
    rw [listed, none, List.map_nil, List.nil_append, serverWarnings] at member
    split at member
    · have same_field : "output_targets" = "dev_server" :=
        congrArg Warning.field (List.mem_singleton.mp member)
      exact absurd same_field (by decide)
    · cases member
  · intro some
    obtain ⟨d, member⟩ := List.exists_mem_of_ne_nil _ some
    refine ⟨d, ?_⟩
    rw [listed]
    exact List.mem_append_left _ (List.mem_map_of_mem member)

theorem reportsDuplicate_iff_sitePair (c : ProjectConfig) :
    ReportsDuplicate c ↔ SitePair SameDir c.targets := by
  have apart : (ProjectConfig.wwwDirs c.targets).Pairwise
        (fun a b => a.components ≠ b.components) ↔
      (c.targets.filter (·.kind == .www)).Pairwise fun a b => ¬ SameDir a b :=
    List.pairwise_map
  rw [reportsDuplicate_iff, sitePair_iff_not_pairwise, ← apart, ne_eq, repeatedDirs_eq_nil_iff]
  simp only [List.not_mem_nil, false_imp_iff, implies_true, true_and]

end Config

namespace OutputTarget

theorem dir_resolve (t : OutputTarget) (root : Path) : (t.resolve root).dir = root.join t.dir := by
  unfold resolve
  split
  · rename_i absolute
    exact (Path.join_of_absolute absolute root).symm
  · rfl

theorem kind_resolve (t : OutputTarget) (root : Path) : (t.resolve root).kind = t.kind := by
  unfold resolve
  split <;> rfl

end OutputTarget

namespace Config

theorem sameDir_iff_resolved (a b : OutputTarget) (root : Path) :
    SameDir a b ↔ SameDir (a.resolve root) (b.resolve root) ∧ BeginAlike a b := by
  unfold SameDir BeginAlike
  rw [OutputTarget.dir_resolve, OutputTarget.dir_resolve]
  constructor
  · intro same
    have alike := (Path.components_eq_iff.mp same).1
    exact ⟨(Path.join_same_iff alike root).mpr same, alike⟩
  · rintro ⟨resolved, alike⟩
    exact (Path.join_same_iff alike root).mp resolved

theorem sitePair_congr {other : OutputTarget → OutputTarget → Prop}
    (same : ∀ a b, related a b ↔ other a b) :
    SitePair related targets ↔ SitePair other targets := by
  simp only [SitePair, same]

theorem sitePair_resolveDirs (c : ProjectConfig) :
    SitePair related c.resolveDirs.targets ↔
      SitePair (fun a b => related (a.resolve c.root) (b.resolve c.root)) c.targets := by
  simp only [SitePair, ProjectConfig.resolveDirs, List.getElem?_map, Option.map_eq_some_iff]
  constructor
  · rintro ⟨i, j, _, _, before, ⟨a, at_i, rfl⟩, ⟨b, at_j, rfl⟩, site_a, site_b, pair⟩
    rw [OutputTarget.kind_resolve] at site_a site_b
    exact ⟨i, j, a, b, before, at_i, at_j, site_a, site_b, pair⟩
  · rintro ⟨i, j, a, b, before, at_i, at_j, site_a, site_b, pair⟩
    rw [← OutputTarget.kind_resolve _ c.root] at site_a site_b
    exact ⟨i, j, _, _, before, ⟨a, at_i, rfl⟩, ⟨b, at_j, rfl⟩, site_a, site_b, pair⟩

theorem emptyDirErrors_eq_nil_iff :
    emptyDirErrors targets = [] ↔ ∀ t ∈ targets, t.dir.bytes ≠ [] := by
  rw [emptyDirErrors, List.filterMap_eq_nil_iff]
  constructor
  · intro none t member empty
    obtain ⟨i, at_i⟩ := List.mem_iff_getElem?.mp member
    have quiet := none (t, i) (List.mk_mem_zipIdx_iff_getElem?.mpr at_i)
    simp [empty] at quiet
  · rintro filled ⟨t, i⟩ member
    have there := List.mem_of_getElem? (List.mk_mem_zipIdx_iff_getElem?.mp member)
    simp [filled t there]

/-- What loads is the resolved form of a configuration whose warnings were noted before. -/
theorem load_ok {view : FileView} {file : Path} {loaded : ProjectConfig}
    (ok : (ProjectConfig.load view file).result = .ok loaded) :
    ∃ written : ProjectConfig, loaded = written.resolveDirs ∧
      (∀ t ∈ written.targets, t.dir.bytes ≠ []) ∧
      (diagnostics written).warningNotes <:+ (ProjectConfig.load view file).notes := by
  unfold ProjectConfig.load at ok ⊢
  split at ok
  · cases ok
  · split at ok
    · cases ok
    · dsimp only at ok
      split at ok
      · cases ok
      · rename_i accepted
        cases ok
        refine ⟨_, rfl, ?_, List.suffix_append _ _⟩
        unfold Diagnostics.toResult at accepted
        split at accepted
        · rename_i empty
          exact emptyDirErrors_eq_nil_iff.mp (List.isEmpty_iff.mp empty)
        · cases accepted

/-- A repeated `www` directory is reported exactly if two targets whose directories coincide once
resolved also began alike as they were written. -/
theorem repeated_dir_reported_iff (c : ProjectConfig) :
    (ReportsDuplicate c ↔ SitePair (fun a b =>
      SameDir (a.resolve c.root) (b.resolve c.root) ∧ BeginAlike a b) c.targets) ∧
    (SitePair SameDir c.resolveDirs.targets ↔ SitePair (fun a b =>
      SameDir (a.resolve c.root) (b.resolve c.root)) c.targets) ∧
    ∀ view file loaded, (ProjectConfig.load view file).result = .ok loaded →
      ∃ written : ProjectConfig, loaded = written.resolveDirs ∧
        (∀ t ∈ written.targets, t.dir.bytes ≠ []) ∧
        (diagnostics written).warningNotes <:+ (ProjectConfig.load view file).notes := by
  refine ⟨?_, sitePair_resolveDirs c, fun view file loaded => load_ok⟩
  rw [reportsDuplicate_iff_sitePair]
  exact sitePair_congr fun a b => sameDir_iff_resolved a b c.root

def twoSites : ProjectConfig :=
  { ProjectConfig.default with
    configPath := .ofString "/r/hotmod.toml"
    root := .ofString "/r"
    targets := [⟨.www, .ofString "dist"⟩, ⟨.www, .ofString "/r/dist"⟩] }

def twoSitesView : FileView :=
  ⟨.ofString "/r", fun _ => true, some, fun _ => .ok (Utf8.encode
    ("[[output_targets]]\ntype = 'www'\ndir = 'dist'\n" ++
      "[[output_targets]]\ntype = 'www'\ndir = '/r/dist'\n"))⟩

theorem twoSites_loads :
    (ProjectConfig.load twoSitesView twoSites.configPath).result = .ok twoSites.resolveDirs := by
  have found : (ProjectConfig.load twoSitesView twoSites.configPath).result.toOption =
      some twoSites.resolveDirs := by decide +kernel
  cases result : (ProjectConfig.load twoSitesView twoSites.configPath).result with
  | error e =>
    rw [result] at found
    cases found
  | ok loaded =>
    rw [result] at found
    exact congrArg Except.ok (Option.some.inj found)

theorem two_sites_checked : ∃ written : ProjectConfig, twoSites.resolveDirs = written.resolveDirs ∧
    (∀ t ∈ written.targets, t.dir.bytes ≠ []) ∧ (diagnostics written).warningNotes <:+
      (ProjectConfig.load twoSitesView twoSites.configPath).notes :=
  (repeated_dir_reported_iff twoSites).2.2 _ _ _ twoSites_loads

/-- A relative and an absolute spelling of one directory load without a word. -/
theorem repeated_dir_unreported : twoSites.root.isAbsolute = true ∧
    (∀ t ∈ twoSites.targets, t.dir.bytes ≠ []) ∧
    SitePair SameDir twoSites.resolveDirs.targets ∧ ¬ ReportsDuplicate twoSites ∧
    (ProjectConfig.load twoSitesView twoSites.configPath).notes = [] := by
  refine ⟨by decide, by decide, ?_, ?_, by decide +kernel⟩
  · exact ⟨0, 1, ⟨.www, .ofString "/r/dist"⟩, ⟨.www, .ofString "/r/dist"⟩, by decide, by decide,
      by decide, rfl, rfl, rfl⟩
  · rw [reportsDuplicate_iff]
    decide

end Config
end HotReload
