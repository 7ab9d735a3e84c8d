import HotReload.Path.SiteUrl
import HotReload.Proofs.CutText
import HotReload.Proofs.RelativePaths
import Mathlib.Data.List.Infix

/-! The URL of a file below a site names the file. It is cut at its slashes into the segments it was
put together from, these stand for the components of the relative path, and the relative path stands
for the folded one: it tells by its `..` how far up it goes. -/
namespace HotReload

def HasSegment (url segment : String) : Prop := segment.toList ∈ url.toList.splitOn '/'

namespace Path

variable {cs : List Component} {c : Component} {dir p q : Path} {s : String}

def HasTextNames (p : Path) : Prop := ∀ n, .name n ∈ p.components → ∃ s, Utf8.decode? n = some s

theorem eq_slash_of_mem_encodeChar {c : Char} (member : slash ∈ Utf8.encodeChar c) : c = '/' := by
  have value : ∀ n, n < 256 → slash = UInt8.ofNat n → n = 0x2F := by
    intro n small same
    rw [← Utf8.toNat_ofNat_of_lt small, ← same]
    rfl
  have bounds := Utf8.char_bounds c
  unfold Utf8.encodeChar at member
  dsimp only at member
  repeat' split at member
  all_goals simp only [List.mem_cons, List.not_mem_nil, or_false] at member
  · exact Char.toNat_inj.mp (value _ (by omega) member)
  · rcases member with here | here <;> have := value _ (by omega) here <;> omega
  · rcases member with here | here | here <;> have := value _ (by omega) here <;> omega
  · rcases member with here | here | here | here <;> have := value _ (by omega) here <;> omega

theorem slash_mem_encode_iff {cs : List Char} :
    slash ∈ cs.flatMap Utf8.encodeChar ↔ '/' ∈ cs := by
  rw [List.mem_flatMap]
  constructor
  · rintro ⟨c, member, here⟩
    exact eq_slash_of_mem_encodeChar here ▸ member
  · exact fun member => ⟨'/', member, by decide⟩

/-- The segments of a text are texts, since none of its characters is cut at a slash. -/
theorem exists_encode_of_segments (cs : List Char) {bs : List UInt8}
    (cut : bs ∈ segments (cs.flatMap Utf8.encodeChar)) : ∃ ds : List Char,
    bs = ds.flatMap Utf8.encodeChar := by
  by_cases whole : '/' ∈ cs
  · obtain ⟨front, back, rfl⟩ := List.append_of_mem whole
    have parts : (front ++ '/' :: back).flatMap Utf8.encodeChar =
        front.flatMap Utf8.encodeChar ++ slash :: back.flatMap Utf8.encodeChar := by
      rw [List.flatMap_append, List.flatMap_cons]
      rfl
    rw [parts, segments_append_slash] at cut
    rcases List.mem_append.mp cut with before | behind
    · exact exists_encode_of_segments front before
    · exact exists_encode_of_segments back behind
  · rw [segments_of_not_mem (mt slash_mem_encode_iff.mp whole)] at cut
    exact ⟨cs, List.mem_singleton.mp cut⟩
termination_by cs.length

theorem exists_segment_of_behindLead (member : c ∈ p.behindLead) :
    ∃ bs ∈ segments p.bytes, segmentComponent? bs = some c := by
  cases absolute : p.isAbsolute with
  | false =>
    rw [← filterMap_segments absolute] at member
    exact List.mem_filterMap.mp member
  | true =>
    obtain ⟨bytes⟩ := p
    cases bytes with
    | nil => cases absolute
    | cons b r =>
      obtain rfl : b = slash := by simpa [isAbsolute] using absolute
      obtain ⟨bs, cut, stands⟩ := List.mem_filterMap.mp member
      have here : (Path.mk (slash :: r)).split.2 = segments r := rfl
      rw [here] at cut
      refine ⟨bs, ?_, stands⟩
      rw [segments, if_pos rfl]
      exact List.mem_cons_of_mem _ cut

theorem hasTextNames_ofString (s : String) : (ofString s).HasTextNames := by
  intro n member
  have behind := mem_behindLead_of_components member Component.noConfusion Component.noConfusion
  obtain ⟨bs, cut, stands⟩ := exists_segment_of_behindLead behind
  obtain rfl : n = bs := bytes_of_segment stands
  obtain ⟨ds, rfl⟩ := exists_encode_of_segments s.toList cut
  exact ⟨String.ofList ds, Utf8.decode?_flatMap ds⟩

def Component.ofSegment (s : String) : Component :=
  if s = ".." then .parent else .name (Utf8.encode s)

structure Component.WrittenAs (c : Component) (s : String) : Prop where
  written : c.urlSegment? = some s
  stands : Component.ofSegment s = c
  filled : s ≠ ""
  whole : '/' ∉ s.toList

theorem writtenAs_parent : Component.parent.WrittenAs ".." :=
  ⟨rfl, rfl, by decide, by decide⟩

theorem writtenAs_name (segment : (Component.name (Utf8.encode s)).IsSegment) :
    (Component.name (Utf8.encode s)).WrittenAs s := by
  obtain ⟨whole, stands⟩ := segment
  refine ⟨congrArg some (Utf8.decodeLossy_encode s), if_neg ?_, ?_,
    mt slash_mem_encode_iff.mpr whole⟩
  · rintro rfl
    exact absurd stands (by decide)
  · rintro rfl
    exact absurd stands (by decide)

def Written (cs : List Component) : Prop := ∀ c ∈ cs, ∃ s, c.WrittenAs s

theorem exists_writtenAs (written : Written cs) (member : s ∈ cs.filterMap Component.urlSegment?) :
    ∃ c ∈ cs, c.WrittenAs s := by
  obtain ⟨c, listed, same⟩ := List.mem_filterMap.mp member
  obtain ⟨t, here⟩ := written c listed
  obtain rfl := Option.some.inj (here.written.symm.trans same)
  exact ⟨c, listed, here⟩

theorem map_ofSegment (written : Written cs) :
    (cs.filterMap Component.urlSegment?).map Component.ofSegment = cs := by
  induction cs with
  | nil => rfl
  | cons c cs ih =>
    obtain ⟨⟨s, here⟩, later⟩ := List.forall_mem_cons.mp written
    rw [List.filterMap_cons_some here.written, List.map_cons, here.stands, ih later]

/-- Without any component the URL has one empty segment behind its slash. -/
def urlSegments (p : Path) : List String :=
  match p.components.filterMap Component.urlSegment? with
  | [] => [""]
  | ss => ss

theorem siteUrl_eq (p : Path) : p.siteUrl = String.join (p.urlSegments.map ("/" ++ ·)) := by
  unfold siteUrl urlSegments
  split <;> simp_all

theorem mem_urlSegments_iff (filled : s ≠ "") :
    s ∈ p.urlSegments ↔ s ∈ p.components.filterMap Component.urlSegment? := by
  unfold urlSegments
  split
  · rename_i none
    simp [none, filled]
  · exact Iff.rfl

theorem slash_not_mem_urlSegments (written : Written p.components) (member : s ∈ p.urlSegments) :
    '/' ∉ s.toList := by
  by_cases empty : s = ""
  · subst empty
    decide
  · obtain ⟨c, -, here⟩ := exists_writtenAs written ((mem_urlSegments_iff empty).mp member)
    exact here.whole

theorem components_eq_map (written : Written p.components) :
    p.components = (p.urlSegments.filter (· ≠ "")).map Component.ofSegment := by
  have filled : ∀ s ∈ p.components.filterMap Component.urlSegment?, s ≠ "" := by
    intro s member
    obtain ⟨c, -, here⟩ := exists_writtenAs written member
    exact here.filled
  have kept : p.urlSegments.filter (· ≠ "") = p.components.filterMap Component.urlSegment? := by
    unfold urlSegments
    split
    · rename_i none
      rw [none]
      decide
    · exact List.filter_eq_self.mpr fun s member => by simpa using filled s member
  rw [kept, map_ofSegment written]

theorem intercalate_cons (l : List Char) (ls : List (List Char)) :
    ['/'].intercalate (l :: ls) = l ++ ls.flatMap ('/' :: ·) := by
  induction ls generalizing l with
  | nil => simp
  | cons m ls ih =>
    rw [List.intercalate_cons_cons, ih, List.flatMap_cons, List.append_assoc]
    rfl

/-- Cut at its slashes, the URL gives back the segments, behind an empty one. -/
theorem splitOn_siteUrl (written : Written p.components) :
    p.siteUrl.toList.splitOn '/' = [] :: p.urlSegments.map String.toList := by
  have text : p.siteUrl.toList =
      ['/'].intercalate ([] :: p.urlSegments.map String.toList) := by
    rw [siteUrl_eq, String.toList_join, intercalate_cons, List.flatMap_map, List.flatMap_map,
      List.nil_append]
    simp
  rw [text]
  refine List.splitOn_intercalate '/' (List.forall_mem_cons.mpr ⟨List.not_mem_nil, ?_⟩)
    (List.cons_ne_nil _ _)
  exact List.forall_mem_map.mpr fun s member => slash_not_mem_urlSegments written member

theorem components_eq_of_siteUrl (p_written : Written p.components)
    (q_written : Written q.components) (same : p.siteUrl = q.siteUrl) :
    p.components = q.components := by
  have cut := splitOn_siteUrl p_written
  rw [same, splitOn_siteUrl q_written] at cut
  have segments : p.urlSegments = q.urlSegments :=
    (List.map_injective_iff.mpr (fun s t => String.toList_inj.mp) (List.cons.inj cut).2).symm
  rw [components_eq_map p_written, components_eq_map q_written, segments]

theorem hasSegment_iff (written : Written p.components) (filled : s ≠ "") :
    HasSegment p.siteUrl s ↔ s ∈ p.urlSegments := by
  have not_empty : s.toList ≠ [] := by simpa using filled
  rw [HasSegment, splitOn_siteUrl written, List.mem_cons, or_iff_right not_empty, List.mem_map]
  constructor
  · rintro ⟨t, member, same⟩
    exact String.toList_inj.mp same ▸ member
  · exact fun member => ⟨s, member, rfl⟩

theorem hasSegment_parent_iff (written : Written p.components) :
    HasSegment p.siteUrl ".." ↔ .parent ∈ p.components := by
  rw [hasSegment_iff written (by decide), mem_urlSegments_iff (by decide)]
  constructor
  · intro member
    obtain ⟨c, listed, here⟩ := exists_writtenAs written member
    rw [← here.stands] at listed
    exact listed
  · exact fun member => List.mem_filterMap.mpr ⟨.parent, member, rfl⟩

theorem exists_fork_of_absolute (absolute : dir.isAbsolute = true) (p : Path) :
    ∃ front left right, Fork dir.folded p.folded front left right ∧ .root ∉ right ∧
      (dir.relativeTo p).components = List.replicate left.length .parent ++ right := by
  obtain ⟨front, left, right, fork, way⟩ := exists_fork dir.folded p.folded
  have inner := fork.root_not_mem fun _ => absolute
  exact ⟨front, left, right, fork, inner, components_relativeTo fork way inner⟩

theorem written_relativeTo (absolute : dir.isAbsolute = true) (text : p.HasTextNames) :
    Written (dir.relativeTo p).components := by
  obtain ⟨front, left, right, fork, not_root, whole⟩ := exists_fork_of_absolute absolute p
  rw [whole]
  refine List.forall_mem_append.mpr ⟨fun c up => ?_, fun c down => ?_⟩
  · rw [List.eq_of_mem_replicate up]
    exact ⟨"..", writtenAs_parent⟩
  · have kept : c ∈ p.folded := fork.second ▸ List.mem_append_right front down
    have segment := isSegment_of_mem_folded kept (fun root => not_root (root ▸ down))
    cases c with
    | root => exact absurd down not_root
    | current => exact absurd kept current_not_mem_folded
    | parent => exact ⟨"..", writtenAs_parent⟩
    | name n =>
      obtain ⟨s, decoded⟩ := text n (mem_components_of_folded kept)
      obtain rfl := Utf8.encode_of_decode? decoded
      exact ⟨s, writtenAs_name segment⟩

/-- To a relative path the way goes up from the absolute directory beyond the root. -/
theorem components_relativeTo_relative (absolute : dir.isAbsolute = true)
    (relative : p.isAbsolute = false) :
    (dir.relativeTo p).components =
      List.replicate dir.folded.length .parent ++ p.folded := by
  obtain ⟨ns, -, dir_eq⟩ := folded_of_absolute absolute
  have not_root : .root ∉ p.folded := by
    rw [root_mem_folded_iff, relative]
    exact Bool.false_ne_true
  obtain ⟨front, left, right, fork, -, whole⟩ := exists_fork_of_absolute absolute p
  obtain rfl := (dir_eq ▸ fork.symm).front_eq_nil not_root
  rw [whole, fork.first, fork.second]
  rfl

theorem components_relativeTo_absolute (absolute : dir.isAbsolute = true)
    (target : p.isAbsolute = true) : ∃ up down, up < dir.folded.length ∧
      (∀ c ∈ down, c.IsName) ∧
      (dir.relativeTo p).components = List.replicate up .parent ++ down := by
  obtain ⟨front, left, right, fork, -, whole⟩ := exists_fork_of_absolute absolute p
  refine ⟨left.length, right, ?_, (fork.names_only absolute target).2, whole⟩
  obtain ⟨xs, -, dir_eq⟩ := folded_of_absolute absolute
  obtain ⟨ys, -, target_eq⟩ := folded_of_absolute target
  rw [dir_eq, target_eq] at fork
  obtain ⟨above, -, rfl, -⟩ := fork.below_root
  rw [dir_eq]
  simp only [List.length_cons, List.length_append]
  omega

theorem components_relativeTo_ne (absolute : dir.isAbsolute = true)
    (p_absolute : p.isAbsolute = true) (q_relative : q.isAbsolute = false) :
    (dir.relativeTo p).components ≠ (dir.relativeTo q).components := by
  obtain ⟨up, down, fewer, names_only, whole⟩ := components_relativeTo_absolute absolute p_absolute
  -- the relative path needs at least one `..` more, where the other one goes down already
  obtain ⟨k, more⟩ := Nat.exists_eq_add_of_lt fewer
  rw [whole, components_relativeTo_relative absolute q_relative, more, Nat.add_assoc,
    List.replicate_add, List.append_assoc]
  intro same
  have further := List.append_cancel_left same
  refine absurd ?_ (parent_not_mem_of_names names_only)
  rw [further, List.replicate_succ]
  exact List.mem_cons_self

theorem foldl_relativeTo (absolute : dir.isAbsolute = true) (target : p.isAbsolute = true) :
    (dir.relativeTo p).components.foldl foldStep dir.stack = p.stack := by
  obtain ⟨front, left, right, fork, -, whole⟩ := exists_fork_of_absolute absolute p
  rw [whole, stack_of_fork fork (fork.names_only absolute target).1]

theorem folded_eq_of_relativeTo (absolute : dir.isAbsolute = true)
    (same : (dir.relativeTo p).components = (dir.relativeTo q).components) :
    p.folded = q.folded := by
  cases p_kind : p.isAbsolute <;> cases q_kind : q.isAbsolute
  · rw [components_relativeTo_relative absolute p_kind,
      components_relativeTo_relative absolute q_kind] at same
    exact List.append_cancel_left same
  · exact absurd same.symm (components_relativeTo_ne absolute q_kind p_kind)
  · exact absurd same (components_relativeTo_ne absolute p_kind q_kind)
  · rw [← reverse_stack p, ← reverse_stack q, ← foldl_relativeTo absolute p_kind, same,
      foldl_relativeTo absolute q_kind]

theorem parent_mem_relativeTo_iff (absolute : dir.isAbsolute = true) :
    .parent ∈ (dir.relativeTo p).components ↔ ¬ dir.folded <+: p.folded := by
  obtain ⟨front, left, right, fork, -, whole⟩ := exists_fork_of_absolute absolute p
  rw [whole, fork.isPrefix_iff]
  cases left with
  | cons c left => simp
  | nil =>
    have within : dir.folded <+: p.folded := fork.isPrefix_iff.mpr rfl
    have target : p.isAbsolute = true :=
      root_mem_folded_iff.mp (within.mem (root_mem_folded_iff.mpr absolute))
    exact iff_of_false (parent_not_mem_of_names (fork.names_only absolute target).2)
      (not_not_intro rfl)

/-- Below an absolute directory, the URLs of two paths are the same exactly if the folded paths are,
and a `..` in the URL tells that the path leaves the directory. -/
theorem same_siteUrl_iff (absolute : dir.isAbsolute = true) (p_text : p.HasTextNames)
    (q_text : q.HasTextNames) :
    ((dir.relativeTo p).siteUrl = (dir.relativeTo q).siteUrl ↔ p.folded = q.folded) ∧
      (HasSegment (dir.relativeTo p).siteUrl ".." ↔ ¬ dir.folded <+: p.folded) := by
  have p_written := written_relativeTo absolute p_text
  have q_written := written_relativeTo absolute q_text
  refine ⟨⟨fun same => ?_, fun same => ?_⟩, ?_⟩
  · exact folded_eq_of_relativeTo absolute (components_eq_of_siteUrl p_written q_written same)
  · rw [relativeTo, relativeTo, same]
  · rw [hasSegment_parent_iff p_written, parent_mem_relativeTo_iff absolute]

/-- Two spellings of a file beside the directory. -/
theorem same_siteUrl_outside :
    (ofString "/d").isAbsolute = true ∧ (ofString "/d/x/../../a").HasTextNames ∧
      (ofString "/./a").HasTextNames ∧
      ((ofString "/d").relativeTo (ofString "/d/x/../../a")).siteUrl =
        ((ofString "/d").relativeTo (ofString "/./a")).siteUrl ∧
      HasSegment ((ofString "/d").relativeTo (ofString "/d/x/../../a")).siteUrl ".." := by
  have absolute : (ofString "/d").isAbsolute = true := by decide
  have long := hasTextNames_ofString "/d/x/../../a"
  have short := hasTextNames_ofString "/./a"
  obtain ⟨same, outside⟩ := same_siteUrl_iff absolute long short
  exact ⟨absolute, long, short, same.mpr (by decide), outside.mpr (by decide)⟩

end Path
end HotReload
