import HotReload.Proofs.RepeatedDirs
import HotReload.Proofs.RootDirectory
import HotReload.Proofs.Utf8
import Mathlib.Data.List.Forall2

namespace HotReload

theorem FileView.content_of_readText {view : FileView} {file : Path} {text : String}
    (read : view.readText file = .ok text) : ∃ bytes, view.content file = .ok bytes := by
  unfold readText textOf at read
  split at read
  · cases read
  · rename_i bytes content
    exact ⟨bytes, content⟩

theorem FileView.readText_encode {view : FileView} {file : Path} {text : String}
    (content : view.content file = .ok (Utf8.encode text)) : view.readText file = .ok text := by
  unfold readText textOf
  rw [content]
  dsimp only
  rw [Utf8.decode?_encode]

namespace Config

variable {targets : List OutputTarget}

def emptyDirError (i : Nat) : Diagnostic :=
  ⟨s!"output_targets[{i}].dir", "output directory must not be empty",
    some "set `dir` to the directory this target writes to"⟩

theorem mem_emptyDirErrors {e : Diagnostic} :
    e ∈ emptyDirErrors targets ↔
      ∃ i t, targets[i]? = some t ∧ t.dir.bytes = [] ∧ e = emptyDirError i := by
  simp only [emptyDirErrors, List.mem_filterMap, Prod.exists, List.mk_mem_zipIdx_iff_getElem?,
    Option.ite_none_right_eq_some, List.isEmpty_iff, Option.some.injEq]
  constructor
  · rintro ⟨t, i, there, empty, rfl⟩
    exact ⟨i, t, there, empty, rfl⟩
  · rintro ⟨i, t, there, empty, rfl⟩
    exact ⟨t, i, there, empty, rfl⟩

theorem length_emptyDirErrors :
    (emptyDirErrors targets).length = targets.countP (·.dir.bytes.isEmpty) := by
  have counted : ∀ start, ((targets.zipIdx start).filterMap fun t : OutputTarget × Nat =>
      if t.1.dir.bytes.isEmpty then some (emptyDirError t.2) else none).length =
        targets.countP (·.dir.bytes.isEmpty) := by
    induction targets with
    | nil => exact fun _ => rfl
    | cons t ts ih =>
      intro start
      rw [List.zipIdx_cons, List.countP_cons]
      by_cases empty : t.dir.bytes.isEmpty
      · simp only [List.filterMap_cons, if_pos empty, List.length_cons, ih]
      · simp only [List.filterMap_cons, if_neg empty, ih, Nat.add_zero]
  exact counted 0

theorem isInfix_intercalate (separator : String) {parts : List String} {s : String}
    (listed : s ∈ parts) : s.toList <:+: (separator.intercalate parts).toList := by
  induction parts with
  | nil => cases listed
  | cons first rest ih =>
    cases rest with
    | nil =>
      obtain rfl := List.mem_singleton.mp listed
      have whole : (separator.intercalate [s]).toList = s.toList := by
        rw [String.intercalate_singleton]
      exact whole ▸ List.infix_refl _
    | cons second rest =>
      rw [String.intercalate_cons_cons, String.toList_append, String.toList_append]
      rcases List.mem_cons.mp listed with rfl | listed
      · exact (List.prefix_append _ _).isInfix.trans (List.prefix_append _ _).isInfix
      · exact (ih listed).trans (List.suffix_append _ _).isInfix

theorem Diagnostics.display_split (d : Diagnostics) : ∃ before behind, d.display =
    before ++ "\n\n".intercalate (d.errors.map Diagnostic.display) ++ behind := by
  unfold Diagnostics.display
  exact ⟨_, _, rfl⟩

theorem Diagnostics.isInfix_display {d : Diagnostics} {e : Diagnostic} (listed : e ∈ d.errors) :
    e.display.toList <:+: (LoadError.invalid d).fullMessage.toList := by
  obtain ⟨before, behind, whole⟩ := d.display_split
  have member : e.display ∈ d.errors.map Diagnostic.display := List.mem_map_of_mem listed
  show _ <:+: d.display.toList
  rw [whole, String.toList_append, String.toList_append]
  exact (isInfix_intercalate "\n\n" member).trans (List.infix_append _ _ _)

end Config

namespace ProjectConfig

open Config

structure Resolved (root : Path) (written t : OutputTarget) : Prop where
  kind : t.kind = written.kind
  dir : t.dir = if written.dir.isAbsolute then written.dir else root.join written.dir
  absolute : t.dir.isAbsolute = true
  filled : t.dir.bytes ≠ []

/-- What was read from a place says the same as what was written there, with directories that
depend on no root any more. -/
structure LoadedFrom (place : Path) (written loaded : ProjectConfig) : Prop where
  configPath : loaded.configPath = place
  root : place.parent = some loaded.root
  title : loaded.title = written.title
  logLevel : loaded.logLevel = written.logLevel
  devServer : loaded.devServer = written.devServer
  targets : List.Forall₂ (Resolved loaded.root) written.targets loaded.targets
  settled : ∀ root, loaded.targets.map (·.resolve root) = loaded.targets

theorem resolved_resolve {root : Path} (absolute : root.isAbsolute = true) (t : OutputTarget) :
    Resolved root t (t.resolve root) := by
  have usable : (t.resolve root).dir.isAbsolute = true := by
    rw [OutputTarget.dir_resolve]
    exact Path.isAbsolute_join absolute t.dir
  refine ⟨OutputTarget.kind_resolve t root, ?_, usable, Path.ne_nil_of_isAbsolute usable⟩
  unfold OutputTarget.resolve
  split <;> rfl

theorem loadedFrom_resolveDirs {place root : Path} (above : place.parent = some root)
    (absolute : root.isAbsolute = true) (written : ProjectConfig) :
    LoadedFrom place written
      { written with configPath := place, root := root }.resolveDirs where
  configPath := rfl
  root := above
  title := rfl
  logLevel := rfl
  devServer := rfl
  targets := List.forall₂_map_right_iff.mpr
    (List.forall₂_same.mpr fun t _ => resolved_resolve absolute t)
  settled := by
    intro other
    have kept : ∀ t ∈ ({ written with configPath := place, root := root } :
        ProjectConfig).resolveDirs.targets, t.resolve other = id t := by
      intro t listed
      obtain ⟨u, -, rfl⟩ := List.mem_map.mp listed
      exact if_pos (resolved_resolve absolute u).absolute
    exact (List.map_congr_left kept).trans (List.map_id _)

section Stages

variable {view : FileView} {file : Path} {text : String} {parsed : ProjectConfig}
  {unknown : List String}

def placed (view : FileView) (file : Path) (parsed : ProjectConfig) : ProjectConfig :=
  { parsed with
    configPath := view.normalize file
    root := (view.normalize file).parent.getD ⟨[]⟩ }

theorem result_of_parsed (read : view.readText file = .ok text)
    (parses : ofText? text = some (parsed, unknown)) :
    (load view file).result = match (diagnostics (placed view file parsed)).toResult with
      | .error d => .error (.invalid d)
      | .ok _ => .ok (placed view file parsed).resolveDirs := by
  unfold load
  simp only [read, parses]
  rfl

theorem load_of_filled (read : view.readText file = .ok text)
    (parses : ofText? text = some (parsed, unknown))
    (filled : ∀ t ∈ parsed.targets, t.dir.bytes ≠ []) :
    (load view file).result = .ok (placed view file parsed).resolveDirs := by
  have none : (diagnostics (placed view file parsed)).errors = [] :=
    emptyDirErrors_eq_nil_iff.mpr filled
  rw [result_of_parsed read parses, Diagnostics.toResult, none]
  rfl

theorem load_of_empty (read : view.readText file = .ok text)
    (parses : ofText? text = some (parsed, unknown))
    (empty : ¬ ∀ t ∈ parsed.targets, t.dir.bytes ≠ []) :
    (load view file).result = .error (.invalid (diagnostics (placed view file parsed))) := by
  have some : ¬ (diagnostics (placed view file parsed)).errors.isEmpty = true := by
    rw [List.isEmpty_iff]
    exact mt emptyDirErrors_eq_nil_iff.mp empty
  rw [result_of_parsed read parses, Diagnostics.toResult, if_neg some]

theorem parsed_of_load {loaded : ProjectConfig} (ok : (load view file).result = .ok loaded) :
    ∃ text parsed unknown, view.readText file = .ok text ∧
      ofText? text = some (parsed, unknown) := by
  unfold load at ok
  split at ok
  · cases ok
  · rename_i text read
    split at ok
    · cases ok
    · rename_i parsed unknown parses
      exact ⟨text, parsed, unknown, read, parses⟩

end Stages

/-- Loading a file whose place is absolute succeeds exactly if the file holds a text that parses
and in which no target has an empty directory. What is loaded then says what was written, with
usable directories; otherwise every target without a directory is reported in one error. -/
theorem load_exact (view : FileView) (file : Path)
    (absolute : (view.normalize file).isAbsolute = true) (rooted : view.RootIsDirectory) :
    ((∃ loaded, (load view file).result = .ok loaded) ↔
      ∃ text parsed unknown, view.readText file = .ok text ∧
        ofText? text = some (parsed, unknown) ∧ ∀ t ∈ parsed.targets, t.dir.bytes ≠ []) ∧
    ∀ text parsed unknown, view.readText file = .ok text →
      ofText? text = some (parsed, unknown) →
      (∀ loaded, (load view file).result = .ok loaded →
        LoadedFrom (view.normalize file) parsed loaded) ∧
      ((∃ t ∈ parsed.targets, t.dir.bytes = []) → ∃ d,
        (load view file).result = .error (.invalid d) ∧
        (∀ e, e ∈ d.errors ↔ ∃ i t, parsed.targets[i]? = some t ∧ t.dir.bytes = [] ∧
          e = emptyDirError i) ∧
        d.errors.length = parsed.targets.countP (·.dir.bytes.isEmpty) ∧
        ∀ e ∈ d.errors, e.display.toList <:+: (LoadError.invalid d).fullMessage.toList) := by
  constructor
  · constructor
    · intro accepted
      obtain ⟨loaded, ok⟩ := accepted
      obtain ⟨text, parsed, unknown, read, parses⟩ := parsed_of_load ok
      refine ⟨text, parsed, unknown, read, parses, ?_⟩
      apply Classical.byContradiction
      intro empty
      cases ok.symm.trans (load_of_empty read parses empty)
    · intro usable
      obtain ⟨text, parsed, unknown, read, parses, filled⟩ := usable
      exact ⟨_, load_of_filled read parses filled⟩
  · intro text parsed unknown read parses
    constructor
    · intro loaded ok
      have filled : ∀ t ∈ parsed.targets, t.dir.bytes ≠ [] := by
        apply Classical.byContradiction
        intro empty
        cases ok.symm.trans (load_of_empty read parses empty)
      cases ok.symm.trans (load_of_filled read parses filled)
      obtain ⟨bytes, content⟩ := FileView.content_of_readText read
      obtain ⟨root, above, root_absolute⟩ := Path.exists_parent absolute (rooted file bytes content)
      rw [placed, above]
      exact loadedFrom_resolveDirs above root_absolute parsed
    · rintro ⟨t, listed, empty⟩
      exact ⟨_, load_of_empty read parses fun filled => filled t listed empty,
        fun e => mem_emptyDirErrors, length_emptyDirErrors,
        fun e => Diagnostics.isInfix_display⟩

def twoDirsText : String :=
  "[[output_targets]]\ntype = 'www'\ndir = 'dist'\n" ++
    "[[output_targets]]\ntype = 'app'\ndir = '/o'\n"

def twoDirs : ProjectConfig :=
  { ProjectConfig.default with targets := [⟨.www, .ofString "dist"⟩, ⟨.other, .ofString "/o"⟩] }

def twoDirsPlace : FileSystem.Location := [Utf8.encode "r", Utf8.encode "c.toml"]

def twoDirsTree : FileSystem.Tree :=
  .add ⟨[], [Utf8.encode "r"]⟩ twoDirsPlace (.file (Utf8.encode twoDirsText))

def twoDirsView : FileView := twoDirsTree.view

theorem twoDirsTree_resolve : twoDirsTree.resolve (.ofString "/r/c.toml") = .ok twoDirsPlace := by
  have root : twoDirsTree.entry? [] = some .directory := rfl
  have above : twoDirsTree.entry? ([] ++ [Utf8.encode "r"]) = some .directory := by decide
  have file : twoDirsTree.entry? ([] ++ [Utf8.encode "r"] ++ [Utf8.encode "c.toml"]) =
      some (.file (Utf8.encode twoDirsText)) := by decide +kernel
  have cut : twoDirsTree.resolve (.ofString "/r/c.toml") =
      twoDirsTree.follow 40 [] ([] :: twoDirsPlace) := rfl
  rw [cut, twoDirsPlace]
  simp only [FileSystem.Tree.follow, root, above, file]
  rfl

theorem twoDirs_loaded : ∃ loaded,
    (load twoDirsView (.ofString "/r/c.toml")).result = .ok loaded ∧
      LoadedFrom (.ofString "/r/c.toml") twoDirs loaded := by
  have place : twoDirsView.normalize (.ofString "/r/c.toml") = .ofString "/r/c.toml" :=
    FileSystem.Tree.normalize_view twoDirsTree_resolve
  have content : twoDirsView.content (.ofString "/r/c.toml") =
      .ok (Utf8.encode twoDirsText) := by
    simp only [twoDirsView, FileSystem.Tree.view, FileSystem.Tree.content, twoDirsTree_resolve]
    rfl
  have rooted : twoDirsView.RootIsDirectory :=
    FileSystem.Tree.view_rootIsDirectory (List.forall_mem_singleton.mpr ⟨by decide, by decide⟩)
  have read : twoDirsView.readText (.ofString "/r/c.toml") = .ok twoDirsText :=
    FileView.readText_encode content
  have parses : ofText? twoDirsText = some (twoDirs, []) := by decide +kernel
  have absolute : (twoDirsView.normalize (.ofString "/r/c.toml")).isAbsolute = true := by
    rw [place]
    rfl
  have spec := load_exact twoDirsView (.ofString "/r/c.toml") absolute rooted
  rw [place] at spec
  obtain ⟨loaded, ok⟩ := spec.1.mpr ⟨_, _, _, read, parses, by decide⟩
  exact ⟨loaded, ok, (spec.2 _ _ _ read parses).1 loaded ok⟩

end ProjectConfig
end HotReload
