import HotReload.Proofs.LoadedConfig
import Mathlib.Data.Finset.Card
import Mathlib.Data.List.Induction

namespace HotReload

namespace Config

section Passes

variable {α : Type} {problem : List OutputTarget → OutputTarget → Prop}
  {targets : List OutputTarget} {t : OutputTarget} {i : Nat} {positions : List Nat}

/-- The target at this position has a problem, which may lie in what stands before it. -/
def ProblemAt (problem : List OutputTarget → OutputTarget → Prop) (targets : List OutputTarget)
    (i : Nat) : Prop :=
  ∃ t, targets[i]? = some t ∧ problem (targets.take i) t

theorem ProblemAt.lt_length (here : ProblemAt problem targets i) : i < targets.length := by
  obtain ⟨t, there, -⟩ := here
  exact (List.getElem?_eq_some_iff.mp there).1

theorem problemAt_concat :
    ProblemAt problem (targets ++ [t]) i ↔
      ProblemAt problem targets i ∨ i = targets.length ∧ problem targets t := by
  rcases Nat.lt_trichotomy i targets.length with before | rfl | behind
  · have other : i ≠ targets.length := Nat.ne_of_lt before
    simp only [ProblemAt, List.getElem?_append_left before,
      List.take_append_of_le_length (Nat.le_of_lt before), other, false_and, or_false]
  · simp [ProblemAt]
  · have other : i ≠ targets.length := Nat.ne_of_gt behind
    have beyond : (targets ++ [t]).length ≤ i := by
      simpa using Nat.succ_le_of_lt behind
    simp [ProblemAt, List.getElem?_eq_none beyond, List.getElem?_eq_none (Nat.le_of_lt behind),
      other]

structure Enumerates (has : Nat → Prop) (positions : List Nat) : Prop where
  ascending : positions.Pairwise (· < ·)
  mem_iff : ∀ i, i ∈ positions ↔ has i

theorem Enumerates.concat (listed : Enumerates (ProblemAt problem targets) positions)
    (here : problem targets t) :
    Enumerates (ProblemAt problem (targets ++ [t])) (positions ++ [targets.length]) where
  ascending := by
    apply List.pairwise_append.mpr
    refine ⟨listed.ascending, List.pairwise_singleton _ _, ?_⟩
    intro i member last only
    have before : i < targets.length := ((listed.mem_iff i).mp member).lt_length
    exact List.mem_singleton.mp only ▸ before
  mem_iff i := by
    simp only [List.mem_append, List.mem_singleton, problemAt_concat, listed.mem_iff, here,
      and_true]

theorem Enumerates.concat_of_not (listed : Enumerates (ProblemAt problem targets) positions)
    (fine : ¬ problem targets t) :
    Enumerates (ProblemAt problem (targets ++ [t])) positions where
  ascending := listed.ascending
  mem_iff i := by
    simp only [problemAt_concat, listed.mem_iff, fine, and_false, or_false]

/-- A pass through the targets that adds a report for each one with the problem when it comes to
it, and nothing for the others. -/
structure IsPass (problem : List OutputTarget → OutputTarget → Prop)
    (report : Nat → OutputTarget → α) (pass : List OutputTarget → List α) : Prop where
  nil : pass [] = []
  concat : ∀ {ts t}, problem ts t → pass (ts ++ [t]) = pass ts ++ [report ts.length t]
  concat_of_not : ∀ {ts t}, ¬ problem ts t → pass (ts ++ [t]) = pass ts

def ReportedAt (report : Nat → OutputTarget → α) (targets : List OutputTarget) :
    List Nat → List α → Prop :=
  List.Forall₂ fun i r => ∃ t, targets[i]? = some t ∧ r = report i t

theorem ReportedAt.concat {report : Nat → OutputTarget → α} {reports : List α}
    (reported : ReportedAt report targets positions reports) (t : OutputTarget) :
    ReportedAt report (targets ++ [t]) positions reports := by
  apply reported.imp
  intro i r there
  obtain ⟨u, found, said⟩ := there
  have before : i < targets.length := (List.getElem?_eq_some_iff.mp found).1
  exact ⟨u, (List.getElem?_append_left before).trans found, said⟩

/-- Reports that name only the position are determined by the positions. -/
theorem ReportedAt.eq_map {report : Nat → α} {reports : List α}
    (reported : ReportedAt (fun i _ => report i) targets positions reports) :
    reports = positions.map report := by
  induction reported with
  | nil => rfl
  | cons here _ ih =>
    obtain ⟨t, -, rfl⟩ := here
    rw [List.map_cons, ih]

theorem IsPass.exists_positions {report : Nat → OutputTarget → α}
    {pass : List OutputTarget → List α} (made : IsPass problem report pass)
    (targets : List OutputTarget) :
    ∃ positions, Enumerates (ProblemAt problem targets) positions ∧
      ReportedAt report targets positions (pass targets) := by
  induction targets using List.reverseRecOn with
  | nil =>
    refine ⟨[], ⟨.nil, ?_⟩, made.nil ▸ .nil⟩
    intro i
    simp [ProblemAt]
  | append_singleton ts t ih =>
    obtain ⟨positions, listed, reported⟩ := ih
    by_cases here : problem ts t
    · refine ⟨positions ++ [ts.length], listed.concat here, ?_⟩
      rw [made.concat here]
      apply List.rel_append (reported.concat t)
      exact .cons ⟨t, List.getElem?_concat_length, rfl⟩ .nil
    · refine ⟨positions, listed.concat_of_not here, ?_⟩
      rw [made.concat_of_not here]
      exact reported.concat t

end Passes

def LacksDir (_ : List OutputTarget) (t : OutputTarget) : Prop := t.dir.bytes = []

/-- A `www` target that has the directory of an earlier one. -/
def RepeatsDir (earlier : List OutputTarget) (t : OutputTarget) : Prop :=
  t.kind = .www ∧ ∃ a ∈ earlier, a.kind = .www ∧ SameDir a t

variable {ts : List OutputTarget} {t : OutputTarget}

theorem isPass_emptyDirErrors :
    IsPass LacksDir (fun i _ => emptyDirError i) emptyDirErrors where
  nil := rfl
  concat {ts t} empty := by
    have empty : t.dir.bytes = [] := empty
    rw [emptyDirErrors, List.zipIdx_append, List.filterMap_append]
    simp only [List.zipIdx_singleton, List.filterMap_cons, List.filterMap_nil, empty,
      List.isEmpty_nil, if_true, Nat.zero_add]
    rfl
  concat_of_not {ts t} filled := by
    have filled : t.dir.bytes ≠ [] := filled
    simp [emptyDirErrors, List.zipIdx_append, filled]

theorem wwwDirs_concat (site : t.kind = .www) :
    ProjectConfig.wwwDirs (ts ++ [t]) = ProjectConfig.wwwDirs ts ++ [t.dir] := by
  simp [ProjectConfig.wwwDirs, site]

theorem wwwDirs_concat_of_other (other : t.kind ≠ .www) :
    ProjectConfig.wwwDirs (ts ++ [t]) = ProjectConfig.wwwDirs ts := by
  simp [ProjectConfig.wwwDirs, other]

theorem repeatedDirs_concat (earlier ds : List Path) (d : Path) :
    repeatedDirs earlier (ds ++ [d]) =
      repeatedDirs earlier ds ++ if (earlier ++ ds).any (·.same d) then [d] else [] := by
  induction ds generalizing earlier with
  | nil => simp [repeatedDirs]
  | cons first ds ih =>
    have moved : (first :: earlier ++ ds).any (·.same d) =
        (earlier ++ first :: ds).any (·.same d) := by
      simp [Bool.or_left_comm]
    rw [List.cons_append, repeatedDirs, repeatedDirs, ih, moved]
    split <;> rfl

theorem repeatsDir_iff (site : t.kind = .www) :
    RepeatsDir ts t ↔ (ProjectConfig.wwwDirs ts).any (·.same t.dir) = true := by
  simp [RepeatsDir, ProjectConfig.wwwDirs, SameDir, Path.same_iff, site]

theorem isPass_repeatedDirWarnings :
    IsPass RepeatsDir (fun _ t => duplicateWarning t.dir) repeatedDirWarnings where
  nil := rfl
  concat {ts t} repeats := by
    have met := (repeatsDir_iff repeats.1).mp repeats
    rw [repeatedDirWarnings, wwwDirs_concat repeats.1, repeatedDirs_concat, List.nil_append,
      if_pos met, List.map_append]
    rfl
  concat_of_not {ts t} fresh := by
    by_cases site : t.kind = .www
    · have unmet := mt (repeatsDir_iff site).mpr fresh
      rw [repeatedDirWarnings, wwwDirs_concat site, repeatedDirs_concat, List.nil_append,
        if_neg unmet, List.append_nil]
      rfl
    · rw [repeatedDirWarnings, wwwDirs_concat_of_other site]
      rfl

theorem length_repeatedDirs (ds : List Path) :
    (repeatedDirs [] ds).length + (ds.map Path.components).toFinset.card = ds.length := by
  induction ds using List.reverseRecOn with
  | nil => rfl
  | append_singleton ds d ih =>
    have grown : ((ds ++ [d]).map Path.components).toFinset =
        insert d.components (ds.map Path.components).toFinset := by
      ext
      simp
    have met_iff : ds.any (·.same d) = true ↔
        d.components ∈ (ds.map Path.components).toFinset := by
      simp [Path.same_iff]
    rw [repeatedDirs_concat, List.nil_append, grown, List.length_append, List.length_append]
    by_cases met : ds.any (·.same d) = true
    · rw [if_pos met, Finset.card_insert_of_mem (met_iff.mp met)]
      simp only [List.length_singleton]
      omega
    · rw [if_neg met, Finset.card_insert_of_notMem (mt met_iff.mpr met)]
      simp only [List.length_singleton, List.length_nil]
      omega

def Unserved (c : ProjectConfig) : Prop :=
  c.devServer ≠ none ∧ ∀ t ∈ c.targets, t.kind ≠ .www

instance (c : ProjectConfig) : Decidable (Unserved c) :=
  inferInstanceAs (Decidable (_ ∧ _))

def unservedWarning : Warning :=
  ⟨"dev_server", "no www output target: external stylesheet updates are disabled"⟩

theorem serverWarnings_eq (c : ProjectConfig) :
    serverWarnings c = if Unserved c then [unservedWarning] else [] := by
  have same : (c.devServer.isSome && !c.targets.any (·.kind == .www)) = true ↔ Unserved c := by
    simp [Unserved, Option.isSome_iff_ne_none]
  simp only [serverWarnings, same]
  rfl

theorem Diagnostics.toResult_eq_ok_iff {d : Diagnostics} :
    d.toResult = .ok () ↔ d.errors = [] := by
  unfold toResult
  split
  · rename_i none
    simp [List.isEmpty_iff.mp none]
  · rename_i some
    simp [mt List.isEmpty_iff.mpr some]

theorem Diagnostics.toResult_eq_error_iff {d e : Diagnostics} :
    d.toResult = .error e ↔ d.errors ≠ [] ∧ e = d := by
  unfold toResult
  split
  · rename_i none
    simp [List.isEmpty_iff.mp none]
  · rename_i some
    simp [mt List.isEmpty_iff.mpr some, eq_comm]

def Warning.note (w : Warning) : Note := .warning s!"[{w.field}] {w.message}"

end Config

namespace ProjectConfig

open Config

/-- What there is to warn about is logged before it is known whether there are errors. -/
theorem notes_of_parsed {view : FileView} {file : Path} {text : String} {c : ProjectConfig}
    {unknown : List String} (read : view.readText file = .ok text)
    (parses : ofText? text = some (c, unknown)) :
    (load view file).notes =
      unknownNotes file unknown ++ (diagnostics c).warnings.map Warning.note := by
  unfold load
  simp only [read, parses]
  rfl

/-- Validation has one error for each target without a directory, by its position among all
targets, and one warning for each `www` target that has the directory of an earlier one; last comes
the warning about a development server with nothing to show. It fails exactly if there is an error,
and then with all of them. The warnings are logged in any case. -/
theorem problems_reported_once (c : ProjectConfig) : ∃ empty repeated : List Nat,
    Enumerates (ProblemAt LacksDir c.targets) empty ∧
    Enumerates (ProblemAt RepeatsDir c.targets) repeated ∧
    (targetDiagnostics c.targets).errors = empty.map emptyDirError ∧
    ReportedAt (fun _ t => duplicateWarning t.dir) c.targets repeated
      (targetDiagnostics c.targets).warnings ∧
    (targetDiagnostics c.targets).warnings.length +
        ((wwwDirs c.targets).map Path.components).toFinset.card =
      c.targets.countP (·.kind == .www) ∧
    diagnostics c = ⟨empty.map emptyDirError, (targetDiagnostics c.targets).warnings ++
      if Unserved c then [unservedWarning] else []⟩ ∧
    (diagnostics c).warningNotes = (diagnostics c).warnings.map Warning.note ∧
    ((diagnostics c).toResult = .ok () ↔ empty = []) ∧
    (∀ d, (diagnostics c).toResult = .error d ↔ empty ≠ [] ∧ d = diagnostics c) ∧
    ∀ view file text unknown, view.readText file = .ok text →
      ofText? text = some (c, unknown) →
      (load view file).notes =
        unknownNotes file unknown ++ (diagnostics c).warnings.map Warning.note ∧
      (load view file).result = if empty = [] then .ok (placed view file c).resolveDirs
        else .error (.invalid (diagnostics c)) := by
  obtain ⟨empty, listed, reported⟩ := isPass_emptyDirErrors.exists_positions c.targets
  obtain ⟨repeated, relisted, warned⟩ := isPass_repeatedDirWarnings.exists_positions c.targets
  have errors : emptyDirErrors c.targets = empty.map emptyDirError := reported.eq_map
  have none_iff : (diagnostics c).errors = [] ↔ empty = [] := by
    show emptyDirErrors c.targets = [] ↔ empty = []
    rw [errors, List.map_eq_nil_iff]
  have filled_iff : (∀ t ∈ c.targets, t.dir.bytes ≠ []) ↔ empty = [] :=
    emptyDirErrors_eq_nil_iff.symm.trans none_iff
  have counted : (repeatedDirWarnings c.targets).length +
      ((wwwDirs c.targets).map Path.components).toFinset.card =
        c.targets.countP (·.kind == .www) := by
    have total := length_repeatedDirs (wwwDirs c.targets)
    have sites : (wwwDirs c.targets).length = c.targets.countP (·.kind == .www) := by
      rw [wwwDirs, List.length_map, List.countP_eq_length_filter]
    rw [repeatedDirWarnings, List.length_map, total, sites]
  refine ⟨empty, repeated, listed, relisted, errors, warned, counted, ?_, rfl, ?_, ?_, ?_⟩
  · rw [← errors, ← serverWarnings_eq]
    rfl
  · exact Diagnostics.toResult_eq_ok_iff.trans none_iff
  · intro d
    rw [Diagnostics.toResult_eq_error_iff, ne_eq, none_iff]
  · intro view file text unknown read parses
    refine ⟨notes_of_parsed read parses, ?_⟩
    split
    · rename_i none
      exact load_of_filled read parses (filled_iff.mpr none)
    · rename_i some
      exact load_of_empty read parses (mt filled_iff.mp some)

def blankSitesText : String :=
  "[[output_targets]]\ntype = 'www'\ndir = ''\n" ++
    "[[output_targets]]\ntype = 'dist'\ndir = 'lib'\n" ++
    "[[output_targets]]\ntype = 'www'\ndir = ''\n" ++
    "[[output_targets]]\ntype = 'www'\ndir = ''\n"

def blankSites : ProjectConfig :=
  let site : OutputTarget := ⟨.www, .ofString ""⟩
  { ProjectConfig.default with targets := [site, ⟨.dist, .ofString "lib"⟩, site, site] }

def blankSitesView : FileView :=
  ⟨.ofString "/r", fun _ => true, some, fun _ => .ok (Utf8.encode blankSitesText)⟩

/-- Three empty directories are three errors, and the last two of them repeat the first. -/
theorem blankSites_reported :
    (load blankSitesView (.ofString "/r/c.toml")).notes =
      [(duplicateWarning ⟨[]⟩).note, (duplicateWarning ⟨[]⟩).note] ∧
    (load blankSitesView (.ofString "/r/c.toml")).result =
      .error (.invalid (diagnostics blankSites)) ∧
    (diagnostics blankSites).errors = [emptyDirError 0, emptyDirError 2, emptyDirError 3] := by
  have read : blankSitesView.readText (.ofString "/r/c.toml") = .ok blankSitesText :=
    FileView.readText_encode rfl
  have parses : ofText? blankSitesText = some (blankSites, []) := by decide +kernel
  obtain ⟨empty, _, listed, _, _, _, _, _, _, _, _, loads⟩ := problems_reported_once blankSites
  have first : 0 ∈ empty := (listed.mem_iff 0).mpr ⟨_, rfl, rfl⟩
  obtain ⟨notes, result⟩ := loads _ _ _ _ read parses
  exact ⟨notes, result.trans (if_neg (List.ne_nil_of_mem first)), rfl⟩

end ProjectConfig
end HotReload
