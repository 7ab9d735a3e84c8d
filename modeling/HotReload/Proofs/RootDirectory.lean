import HotReload.FileSystem.Tree
import HotReload.Proofs.PathComponents

namespace HotReload

/-- The root is a directory, and no directory has a content. -/
def FileView.RootIsDirectory (view : FileView) : Prop :=
  ∀ file bytes, view.content file = .ok bytes → (view.normalize file).components ≠ [.root]

namespace Path

theorem isAbsolute_of_lead {p : Path} {bs : List UInt8} (text : p.bytes = slash :: bs) :
    p.isAbsolute = true := by
  rw [isAbsolute, text]
  rfl

theorem exists_parent {p : Path} (absolute : p.isAbsolute = true)
    (not_root : p.components ≠ [.root]) : ∃ q, p.parent = some q ∧ q.isAbsolute = true := by
  have lead := lead_eq_root_iff.mpr absolute
  have some_kept : dropTrivialEnd p.split.2 ≠ [] := by
    intro none
    obtain ⟨tail, whole, trivial⟩ := dropTrivialEnd_append p.split.2
    rw [none, List.nil_append] at whole
    apply not_root
    rw [components, lead, ← whole, List.filterMap_eq_nil_iff.mpr trivial]
    rfl
  unfold parent
  split
  · rename_i none
    exact (some_kept none).elim
  · rename_i other _
    cases lead.symm.trans other
  · rename_i other _
    cases lead.symm.trans other
  · refine ⟨_, rfl, ?_⟩
    rw [lead]
    exact isAbsolute_of_lead rfl

theorem isAbsolute_join {root : Path} (absolute : root.isAbsolute = true) (p : Path) :
    (root.join p).isAbsolute = true := by
  obtain ⟨bytes⟩ := root
  cases bytes with
  | nil => cases absolute
  | cons b bs =>
    unfold join
    split
    · assumption
    · split <;> exact absolute

end Path

namespace FileSystem.Tree

open HotReload.Path (slash segmentComponent?)

def IsName (s : List UInt8) : Prop := slash ∉ s ∧ segmentComponent? s ≠ none

variable {t : Tree} {place found : Location}

theorem origin_names {current : Location} (names : ∀ s ∈ current, IsName s) (p : Path) :
    ∀ s ∈ origin p current, IsName s := by
  unfold origin
  split
  · exact fun s member => by cases member
  · exact names

theorem follow_names {links : Nat} {segments : List (List UInt8)}
    (whole : ∀ s ∈ segments, slash ∉ s) (names : ∀ s ∈ place, IsName s)
    (followed : t.follow links place segments = .ok found) : ∀ s ∈ found, IsName s := by
  fun_induction follow t links place segments with
  | case1 =>
    cases followed
    exact names
  | case2 => cases followed
  | case3 links place s rest _ _ ih =>
    exact ih (List.forall_mem_cons.mp whole).2 names followed
  | case4 links place rest _ _ ih =>
    have above : ∀ s ∈ place.dropLast, IsName s :=
      fun s member => names s (List.dropLast_subset place member)
    exact ih (List.forall_mem_cons.mp whole).2 above followed
  | case5 => cases followed
  | case6 => cases followed
  | case7 => cases followed
  | case8 place s rest _ _ _ _ target _ _ ih =>
    refine ih ?_ (origin_names names target) followed
    intro r member
    rcases List.mem_append.mp member with cut | later
    · exact Path.slash_not_mem_of_segments cut
    · exact whole r (List.mem_cons_of_mem s later)
  | case9 links place s rest _ not_trivial not_above _ e _ _ ih =>
    obtain ⟨here, later⟩ := List.forall_mem_cons.mp whole
    refine ih later ?_ followed
    intro r member
    rcases List.mem_append.mp member with above | last
    · exact names r above
    · obtain rfl := List.mem_singleton.mp last
      obtain ⟨filled, not_dot⟩ := not_or.mp not_trivial
      refine ⟨here, ?_⟩
      simp [segmentComponent?, filled, not_dot, not_above]

theorem components_spell_ne (names : ∀ s ∈ place, IsName s) (below : place ≠ []) :
    (spell place).components ≠ [.root] := by
  obtain ⟨s, rest, rfl⟩ := List.ne_nil_iff_exists_cons.mp below
  obtain ⟨whole, seen⟩ := names s List.mem_cons_self
  have first : s ∈ Path.segments (s ++ rest.flatMap (slash :: ·)) := by
    cases rest with
    | nil =>
      rw [List.flatMap_nil, List.append_nil, Path.segments_of_not_mem whole]
      exact List.mem_singleton_self s
    | cons r rest =>
      rw [List.flatMap_cons, List.cons_append, Path.segments_append_slash,
        Path.segments_of_not_mem whole]
      exact List.mem_cons_self
  obtain ⟨c, stands⟩ := Option.ne_none_iff_exists'.mp seen
  have listed : c ∈ (spell (s :: rest)).behindLead := List.mem_filterMap.mpr ⟨s, first, stands⟩
  intro root
  have behind : (spell (s :: rest)).behindLead = [] := (List.cons.inj root).2
  rw [behind] at listed
  cases listed

theorem normalize_view {p : Path} (resolved : t.resolve p = .ok place) :
    t.view.normalize p = spell place := by
  simp only [FileView.normalize, view, resolved, Except.toOption, Option.map_some]

/-- Every tree keeps this law, wherever its working directory is. -/
theorem view_rootIsDirectory (names : ∀ s ∈ t.workingDirectory, IsName s) :
    t.view.RootIsDirectory := by
  intro file bytes content
  simp only [view, Tree.content] at content
  split at content
  · cases content
  · rename_i place resolved
    have below : place ≠ [] := by
      intro top
      have directory : t.entry? place = some .directory := by
        rw [top]
        rfl
      rw [directory] at content
      cases content
    rw [normalize_view resolved]
    refine components_spell_ne ?_ below
    unfold resolve at resolved
    split at resolved
    · cases resolved
    · split at resolved
      · cases resolved
      · split at resolved
        · cases resolved
        · exact follow_names (fun s cut => Path.slash_not_mem_of_segments cut)
            (origin_names names file) resolved

end FileSystem.Tree
end HotReload
