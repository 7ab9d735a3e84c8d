import HotReload.Proofs.AlikeRecords
import HotReload.Snapshot.Text
import Mathlib.Data.List.Perm.Basic
import Mathlib.Logic.Relation

namespace HotReload

structure BuildInput where
  config : ProjectConfig
  modules : List Module
  context : BuildContext

/-- The same record, but for the spelling of its paths. -/
structure Module.Respelled (m n : Module) : Prop where
  source : n.source.components = m.source.components
  output : n.output.map Path.components = m.output.map Path.components
  imports : n.imports.map Path.components = m.imports.map Path.components
  tag : n.tag = m.tag

/-- The same record, but for the order of its imports and how often each is listed. -/
def Module.Relisted (m n : Module) : Prop :=
  n = { m with imports := n.imports } ∧ ∀ p, p ∈ n.imports ↔ p ∈ m.imports

def OutputTarget.place (t : OutputTarget) : OutputKind × List Path.Component :=
  (t.kind, t.dir.components)

namespace BuildInput

def registry (i : BuildInput) : Registry := .ofList i.modules

def text (i : BuildInput) : String :=
  Payload.render (Payload.ofBuild? i.config i.registry i.context) false

/-- One change in the presentation of an input. -/
inductive Restates : BuildInput → BuildInput → Prop where
  /-- Modules with one path keep their order, since the last of them counts. -/
  | moduleOrder {i : BuildInput} {ms : List Module} (perm : ms.Perm i.modules)
      (kept : ∀ p : Path, ms.filter (·.source.same p) = i.modules.filter (·.source.same p)) :
      Restates i { i with modules := ms }
  | importLists {i : BuildInput} {ms : List Module}
      (relisted : List.Forall₂ Module.Relisted i.modules ms) : Restates i { i with modules := ms }
  | modulePaths {i : BuildInput} {ms : List Module}
      (respelled : List.Forall₂ Module.Respelled i.modules ms) :
      Restates i { i with modules := ms }
  | changedList {i : BuildInput} {ps qs : List Path} (given : i.context.changed = some ps)
      (same : ∀ p, p ∈ qs ↔ p ∈ ps) :
      Restates i { i with context := { i.context with changed := some qs } }
  | changedPaths {i : BuildInput} {ps qs : List Path} (given : i.context.changed = some ps)
      (respelled : qs.map Path.components = ps.map Path.components) :
      Restates i { i with context := { i.context with changed := some qs } }
  | writtenOrder {i : BuildInput} {ps : List Path} (perm : ps.Perm i.context.written) :
      Restates i { i with context := { i.context with written := ps } }
  | writtenPaths {i : BuildInput} {ps : List Path}
      (respelled : ps.map Path.components = i.context.written.map Path.components) :
      Restates i { i with context := { i.context with written := ps } }
  | targetOrder {i : BuildInput} {ts : List OutputTarget} (perm : ts.Perm i.config.targets) :
      Restates i { i with config := { i.config with targets := ts } }
  | targetDirs {i : BuildInput} {ts : List OutputTarget}
      (respelled : ts.map OutputTarget.place = i.config.targets.map OutputTarget.place) :
      Restates i { i with config := { i.config with targets := ts } }

end BuildInput

theorem Module.Respelled.alike {m n : Module} (respelled : m.Respelled n) : m.Alike n :=
  ⟨respelled.source.symm, respelled.output.symm,
    Path.sameSet_of_map_eq respelled.imports.symm, respelled.tag.symm⟩

theorem Module.Relisted.alike {m n : Module} (relisted : m.Relisted n) : m.Alike n := by
  obtain ⟨others, same⟩ := relisted
  rw [others]
  exact ⟨rfl, rfl, Path.sameSet_of_mem_iff fun p => (same p).symm, rfl⟩

theorem map_filter_congr {α β : Type} {view : α → β} {keep : α → Bool}
    (sees : ∀ a b, view a = view b → keep a = keep b) :
    ∀ {xs ys : List α}, xs.map view = ys.map view →
      (xs.filter keep).map view = (ys.filter keep).map view := by
  intro xs
  induction xs with
  | nil =>
    intro ys same
    cases ys with
    | nil => rfl
    | cons y ys => cases same
  | cons x xs ih =>
    intro ys same
    cases ys with
    | nil => cases same
    | cons y ys =>
      obtain ⟨head, tail⟩ := List.cons.inj same
      rw [List.filter_cons, List.filter_cons, sees x y head]
      split
      · rw [List.map_cons, List.map_cons, head, ih tail]
      · exact ih tail

namespace StyleChanges

def urlBelow (dir file : List Path.Component) : String :=
  (Path.ofComponents (Path.relativeComponents (Path.foldComponents dir)
    (Path.foldComponents file))).siteUrl

variable {targets others : List OutputTarget} {ctx next : BuildContext}

theorem urls_eq (dirs sheets : List Path) :
    (sheets.flatMap fun file => dirs.map fun dir => (Path.relativeTo dir file).siteUrl) =
      (sheets.map Path.components).flatMap fun file =>
        (dirs.map Path.components).map fun dir => urlBelow dir file := by
  rw [List.flatMap_map]
  congr 1
  funext file
  rw [List.map_map]
  rfl

theorem external_congr (rebuild : ctx.isRebuild = next.isRebuild)
    (dirs : ((ProjectConfig.wwwDirs targets).map Path.components).Perm
      ((ProjectConfig.wwwDirs others).map Path.components))
    (sheets : ((ctx.written.filter Path.isStylesheet).map Path.components).Perm
      ((next.written.filter Path.isStylesheet).map Path.components)) :
    external targets ctx = external others next := by
  have no_dirs : (ProjectConfig.wwwDirs targets).isEmpty =
      (ProjectConfig.wwwDirs others).isEmpty := by
    rw [← List.isEmpty_map, dirs.isEmpty_eq, List.isEmpty_map]
  have no_sheets : (ctx.written.filter Path.isStylesheet).isEmpty =
      (next.written.filter Path.isStylesheet).isEmpty := by
    rw [← List.isEmpty_map, sheets.isEmpty_eq, List.isEmpty_map]
  have urls := ByteOrder.sort_perm <| sheets.flatMap fun file _ =>
    dirs.map fun dir => urlBelow dir file
  rw [← urls_eq, ← urls_eq] at urls
  simp only [external, rebuild, no_dirs, no_sheets, urls]

end StyleChanges

theorem ProjectConfig.wwwDirs_of_places {targets others : List OutputTarget}
    (same : others.map OutputTarget.place = targets.map OutputTarget.place) :
    (wwwDirs others).map Path.components = (wwwDirs targets).map Path.components := by
  have sites : (others.filter (·.kind == .www)).map OutputTarget.place =
      (targets.filter (·.kind == .www)).map OutputTarget.place := by
    apply map_filter_congr _ same
    intro a b alike
    rw [(Prod.mk.inj alike).1]
  have dirs := congrArg (List.map Prod.snd) sites
  rw [List.map_map, List.map_map] at dirs
  rw [wwwDirs, wwwDirs, List.map_map, List.map_map]
  exact dirs

theorem Payload.ofBuild?_congr {config next : ProjectConfig} {r s : Registry}
    {ctx rerun : BuildContext} (server : config.devServer = next.devServer)
    (rebuild : ctx.isRebuild = rerun.isRebuild) (styles : ctx.styles = rerun.styles)
    (tags : Impact.tags r ctx.changed = Impact.tags s rerun.changed)
    (sheets : StyleChanges.external config.targets ctx =
      StyleChanges.external next.targets rerun) :
    ofBuild? config r ctx = ofBuild? next s rerun := by
  have applies : eligible config ctx = eligible next rerun := by
    rw [eligible, eligible, rebuild, ProjectConfig.hotReloadEnabled,
      ProjectConfig.hotReloadEnabled, server]
  have inline : StyleChanges.inline ctx = StyleChanges.inline rerun := by
    rw [StyleChanges.inline, StyleChanges.inline, rebuild, styles]
  rw [ofBuild?, ofBuild?, applies, tags, inline, sheets]

namespace BuildInput

structure SaysSame (i j : BuildInput) : Prop where
  server : i.config.devServer = j.config.devServer
  rebuild : i.context.isRebuild = j.context.isRebuild
  styles : i.context.styles = j.context.styles
  tags : Impact.tags i.registry i.context.changed = Impact.tags j.registry j.context.changed
  sheets : StyleChanges.external i.config.targets i.context =
    StyleChanges.external j.config.targets j.context

variable {i j : BuildInput}

theorem SaysSame.refl (i : BuildInput) : i.SaysSame i := ⟨rfl, rfl, rfl, rfl, rfl⟩

theorem SaysSame.trans {k : BuildInput} (first : i.SaysSame j) (second : j.SaysSame k) :
    i.SaysSame k :=
  ⟨first.server.trans second.server, first.rebuild.trans second.rebuild,
    first.styles.trans second.styles, first.tags.trans second.tags,
    first.sheets.trans second.sheets⟩

theorem SaysSame.text_eq (same : i.SaysSame j) : i.text = j.text := by
  rw [text, text, Payload.ofBuild?_congr same.server same.rebuild same.styles same.tags
    same.sheets]

theorem saysSame_of_modules {ms : List Module}
    (alike : i.registry.Alike (Registry.ofList ms)) :
    i.SaysSame { i with modules := ms } := by
  refine ⟨rfl, rfl, rfl, ?_, rfl⟩
  apply Impact.tags_of_alike alike
  cases i.context.changed with
  | none => exact .none
  | some ps => exact .some fun cs => Iff.rfl

theorem saysSame_of_changed {ps qs : List Path} (given : i.context.changed = some ps)
    (files : Path.SameSet ps qs) :
    i.SaysSame { i with context := { i.context with changed := some qs } } := by
  refine ⟨rfl, rfl, rfl, ?_, rfl⟩
  apply Impact.tags_of_alike (Registry.alike_of_get?_eq fun p => rfl)
  rw [given]
  exact .some files

theorem saysSame_of_written {ps : List Path}
    (sheets : ((i.context.written.filter Path.isStylesheet).map Path.components).Perm
      ((ps.filter Path.isStylesheet).map Path.components)) :
    i.SaysSame { i with context := { i.context with written := ps } } :=
  ⟨rfl, rfl, rfl, rfl, StyleChanges.external_congr rfl (.refl _) sheets⟩

theorem saysSame_of_targets {ts : List OutputTarget}
    (dirs : ((ProjectConfig.wwwDirs i.config.targets).map Path.components).Perm
      ((ProjectConfig.wwwDirs ts).map Path.components)) :
    i.SaysSame { i with config := { i.config with targets := ts } } :=
  ⟨rfl, rfl, rfl, rfl, StyleChanges.external_congr rfl dirs (.refl _)⟩

theorem Restates.saysSame (step : Restates i j) : i.SaysSame j := by
  cases step with
  | moduleOrder perm kept =>
    apply saysSame_of_modules
    apply Registry.alike_of_get?_eq
    intro p
    rw [registry, Registry.get?_ofList, Registry.get?_ofList, kept]
  | importLists relisted =>
    apply saysSame_of_modules
    exact Registry.alike_ofList (relisted.imp fun m n => Module.Relisted.alike)
  | modulePaths respelled =>
    apply saysSame_of_modules
    exact Registry.alike_ofList (respelled.imp fun m n => Module.Respelled.alike)
  | changedList given same =>
    apply saysSame_of_changed given
    exact Path.sameSet_of_mem_iff fun p => (same p).symm
  | changedPaths given respelled =>
    apply saysSame_of_changed given
    exact Path.sameSet_of_map_eq respelled.symm
  | writtenOrder perm =>
    apply saysSame_of_written
    exact ((perm.filter Path.isStylesheet).map Path.components).symm
  | writtenPaths respelled =>
    apply saysSame_of_written
    rw [map_filter_congr (fun p q => Path.isStylesheet_congr) respelled]
  | targetOrder perm =>
    apply saysSame_of_targets
    exact (((perm.filter _).map OutputTarget.dir).map Path.components).symm
  | targetDirs respelled =>
    apply saysSame_of_targets
    rw [ProjectConfig.wwwDirs_of_places respelled]

theorem saysSame_of_restated (restated : Relation.ReflTransGen Restates i j) : i.SaysSame j := by
  induction restated with
  | refl => exact .refl i
  | tail _ step ih => exact ih.trans step.saysSame

/-- However an input is restated, its text stays the same, byte for byte; and the tags found for
it are the same in whatever order the components are gone through. -/
theorem text_of_restated (restated : Relation.ReflTransGen Restates i j) :
    i.text = j.text ∧ ∀ order, order.Perm j.registry.components →
      Impact.tagsAmong j.registry order j.context.changed =
        Impact.tags i.registry i.context.changed := by
  have same := saysSame_of_restated restated
  constructor
  · exact same.text_eq
  · intro order perm
    rw [Impact.tagsAmong_perm perm, same.tags]

def site : BuildInput where
  config := { ProjectConfig.default with
    targets := [⟨.www, .ofString "/p/www"⟩, ⟨.dist, .ofString "/p/dist"⟩,
      ⟨.www, .ofString "/p/site"⟩]
    devServer := some ⟨true⟩ }
  modules := [⟨.ofString "/p/page.ts", none, [.ofString "/p/code.ts"], some "x-page"⟩,
    ⟨.ofString "/p/code.ts", some (.ofString "/p/out/code.js"), [], none⟩]
  context := ⟨some [.ofString "/p/out/code.js"],
    [.ofString "/p/www/b.css", .ofString "/p/www/a.css"], none, true⟩

/-- The lists in reverse, with imports and changes named twice and other spellings. -/
def siteRestated : BuildInput where
  config := { ProjectConfig.default with
    targets := [⟨.www, .ofString "/p/site/."⟩, ⟨.dist, .ofString "/p/dist"⟩,
      ⟨.www, .ofString "/p//www/"⟩]
    devServer := some ⟨true⟩ }
  modules := [⟨.ofString "//p/code.ts", some (.ofString "/p/./out/code.js"), [], none⟩,
    ⟨.ofString "/p/page.ts/", none, [.ofString "/p/./code.ts", .ofString "/p/code.ts/."],
      some "x-page"⟩]
  context := ⟨some [.ofString "/p/out/code.js/.", .ofString "/p//out/code.js"],
    [.ofString "/p/www/a.css/", .ofString "/p/./www/b.css"], none, true⟩

theorem site_restated : Relation.ReflTransGen Restates site siteRestated := by
  have kept (p : Path) : site.modules.reverse.filter (·.source.same p) =
      site.modules.filter (·.source.same p) := by
    have apart : ¬ ((Path.ofString "/p/page.ts").same p = true ∧
        (Path.ofString "/p/code.ts").same p = true) := by
      rw [Path.same_iff, Path.same_iff]
      rintro ⟨page, code⟩
      exact absurd (page.trans code.symm) (by decide)
    simp only [site, List.reverse_cons, List.reverse_nil, List.nil_append,
      List.singleton_append, List.filter_cons, List.filter_nil]
    split <;> split
    · rename_i code page
      exact absurd ⟨page, code⟩ apart
    all_goals rfl
  have imported_twice : List.Forall₂ Module.Relisted site.modules.reverse
      (site.modules.reverse.map fun m => { m with imports := m.imports ++ m.imports }) := by
    rw [List.forall₂_map_right_iff, List.forall₂_same]
    exact fun m _ => ⟨rfl, by simp⟩
  have spelled : List.Forall₂ Module.Respelled
      (site.modules.reverse.map fun m => { m with imports := m.imports ++ m.imports })
      siteRestated.modules :=
    .cons ⟨by decide, by decide, by decide, rfl⟩
      (.cons ⟨by decide, by decide, by decide, rfl⟩ .nil)
  have changed_twice : ∀ p, p ∈ [Path.ofString "/p/out/code.js", .ofString "/p/out/code.js"] ↔
      p ∈ [Path.ofString "/p/out/code.js"] := by simp
  have modules : Relation.ReflTransGen Restates site
      { site with modules := siteRestated.modules } :=
    .tail (.tail (.single (.moduleOrder (List.reverse_perm _) kept))
      (.importLists imported_twice)) (.modulePaths spelled)
  have changes : Relation.ReflTransGen Restates { site with modules := siteRestated.modules }
      { siteRestated with
        config := site.config
        context := { siteRestated.context with written := site.context.written } } :=
    .tail (.single (.changedList rfl changed_twice)) (.changedPaths rfl (by decide))
  have written : Relation.ReflTransGen Restates
      { siteRestated with
        config := site.config
        context := { siteRestated.context with written := site.context.written } }
      { siteRestated with config := site.config } :=
    .tail (.single (.writtenOrder (List.reverse_perm _))) (.writtenPaths (by decide))
  have targets : Relation.ReflTransGen Restates
      { siteRestated with config := site.config } siteRestated :=
    .tail (.single (.targetOrder (List.reverse_perm _))) (.targetDirs (by decide))
  exact modules.trans (changes.trans (written.trans targets))

theorem page_hit : Impact.Hits site.registry site.context.changed "x-page" := by
  refine ⟨⟨.ofString "/p/page.ts", none, [.ofString "/p/code.ts"], some "x-page"⟩, by decide,
    rfl, _, rfl, .ofString "/p/out/code.js", List.mem_singleton_self _, by decide +kernel,
    ⟨.ofString "/p/code.ts", some (.ofString "/p/out/code.js"), [], none⟩, ?_, ?_⟩
  · exact .step ⟨.ofString "/p/code.ts", List.mem_singleton_self _, by decide⟩ (.here _)
  · exact .inr ⟨_, rfl, rfl⟩

theorem text_of_site_restated : Payload.eligible site.config site.context = true ∧
    Impact.Hits site.registry site.context.changed "x-page" ∧ site.text = siteRestated.text ∧
    ∀ order, order.Perm siteRestated.registry.components →
      Impact.tagsAmong siteRestated.registry order siteRestated.context.changed =
        Impact.tags site.registry site.context.changed :=
  ⟨rfl, page_hit, text_of_restated site_restated⟩

end BuildInput
end HotReload
