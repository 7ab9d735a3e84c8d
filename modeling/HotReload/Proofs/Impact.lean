import HotReload.Impact
import HotReload.Proofs.ByteOrder
import HotReload.Proofs.Reachability

namespace HotReload

def Module.IsAt (m : Module) (file : Path) : Prop :=
  m.source.components = file.components ∨
    ∃ output, m.output = some output ∧ output.components = file.components

theorem Module.isFile_iff {m : Module} {file : Path} : m.isFile file = true ↔ m.IsAt file := by
  simp only [isFile, IsAt, Bool.or_eq_true, Path.same_iff, Option.any_eq_true]

namespace Impact

/-- The tag belongs to a component that reaches a changed script along registered imports. -/
def Hits (r : Registry) (changed : Option (List Path)) (tag : String) : Prop :=
  ∃ m ∈ r.entries, m.tag = some tag ∧
    ∃ files, changed = some files ∧ ∃ file ∈ files, file.isScript = true ∧
      ∃ b, r.Reaches m b ∧ b.IsAt file

variable {r : Registry}

theorem mem_components {m : Module} {tag : String} :
    (m, tag) ∈ r.components ↔ m ∈ r.entries ∧ m.tag = some tag := by
  simp only [Registry.components, List.mem_filterMap, Option.map_eq_some_iff, Prod.mk.injEq]
  constructor
  · rintro ⟨_, member, _, tagged, rfl, rfl⟩
    exact ⟨member, tagged⟩
  · rintro ⟨member, tagged⟩
    exact ⟨m, member, tag, tagged, rfl, rfl⟩

/-- Going through the components for one script adds the tags of those that depend on it. A
skipped tag is one that is there already. -/
theorem mem_addHits {script : Path} {hit : List String} {cs : List (Module × String)}
    {tag : String} :
    tag ∈ addHits r script hit cs ↔
      tag ∈ hit ∨ ∃ m, (m, tag) ∈ cs ∧ r.dependsOn m script = true := by
  induction cs generalizing hit with
  | nil => simp [addHits]
  | cons c cs ih =>
    obtain ⟨m, t⟩ := c
    have split_head : (∃ a, (a, tag) ∈ (m, t) :: cs ∧ r.dependsOn a script = true) ↔
        (tag = t ∧ r.dependsOn m script = true) ∨
          ∃ a, (a, tag) ∈ cs ∧ r.dependsOn a script = true := by
      simp only [List.mem_cons, Prod.mk.injEq, or_and_right, exists_or]
      constructor
      · rintro (⟨_, ⟨rfl, rfl⟩, depends⟩ | later)
        · exact .inl ⟨rfl, depends⟩
        · exact .inr later
      · rintro (⟨rfl, depends⟩ | later)
        · exact .inl ⟨m, ⟨rfl, rfl⟩, depends⟩
        · exact .inr later
    rw [split_head, addHits]
    split
    · rename_i known
      rw [ih]
      constructor
      · exact Or.imp_right .inr
      · rintro (old | ⟨rfl, _⟩ | later)
        · exact .inl old
        · exact .inl known
        · exact .inr later
    · split
      · rename_i depends
        rw [ih, ByteOrder.mem_insert, or_assoc, or_left_comm]
        simp only [depends, and_true]
      · rename_i independent
        rw [ih]
        simp only [independent, and_false, false_or, Bool.false_eq_true]

theorem ascending_addHits (script : Path) {hit : List String} (cs : List (Module × String))
    (sorted : ByteOrder.Ascending hit) : ByteOrder.Ascending (addHits r script hit cs) := by
  induction cs generalizing hit with
  | nil => exact sorted
  | cons c cs ih =>
    rw [addHits]
    split
    · exact ih sorted
    · split
      · exact ih (ByteOrder.ascending_insert _ sorted)
      · exact ih sorted

/-- The state of the loop over the scripts, with `hit` found before its first turn. -/
theorem mem_foldl_addHits {cs : List (Module × String)} {ss : List Path} {hit : List String}
    {tag : String} :
    tag ∈ ss.foldl (fun hit script => addHits r script hit cs) hit ↔
      tag ∈ hit ∨ ∃ s ∈ ss, ∃ m, (m, tag) ∈ cs ∧ r.dependsOn m s = true := by
  induction ss generalizing hit with
  | nil => simp
  | cons s ss ih =>
    rw [List.foldl_cons, ih, mem_addHits, or_assoc]
    simp only [List.mem_cons, exists_eq_or_imp]

theorem mem_hitTags {cs : List (Module × String)} {ss : List Path} {tag : String} :
    tag ∈ hitTags r cs ss ↔ ∃ s ∈ ss, ∃ m, (m, tag) ∈ cs ∧ r.dependsOn m s = true := by
  simp only [hitTags, mem_foldl_addHits, List.not_mem_nil, false_or]

theorem ascending_hitTags (cs : List (Module × String)) (ss : List Path) :
    ByteOrder.Ascending (hitTags r cs ss) := by
  have run : ∀ hit, ByteOrder.Ascending hit →
      ByteOrder.Ascending (ss.foldl (fun hit script => addHits r script hit cs) hit) := by
    induction ss with
    | nil => exact fun hit sorted => sorted
    | cons s ss ih => exact fun hit sorted => ih _ (ascending_addHits s cs sorted)
  exact run [] .nil

theorem hitTags_perm {cs order : List (Module × String)} (perm : order.Perm cs)
    (ss : List Path) : hitTags r order ss = hitTags r cs ss := by
  apply (ascending_hitTags order ss).eq_of_mem_iff (ascending_hitTags cs ss)
  intro tag
  simp only [mem_hitTags, perm.mem_iff]

theorem mem_hitTags_scripts {files : List Path} {tag : String} :
    tag ∈ hitTags r r.components (scripts files) ↔ Hits r (some files) tag := by
  rw [mem_hitTags]
  constructor
  · rintro ⟨s, script, m, component, depends⟩
    obtain ⟨member, tagged⟩ := mem_components.mp component
    obtain ⟨changed, isScript⟩ := List.mem_filter.mp script
    obtain ⟨b, reached, isFile⟩ := (Registry.dependsOn_iff_reaches member).mp depends
    exact ⟨m, member, tagged, files, rfl, s, changed, isScript, b, reached,
      Module.isFile_iff.mp isFile⟩
  · rintro ⟨m, member, tagged, _, given, s, changed, isScript, b, reached, isAt⟩
    cases given
    refine ⟨s, List.mem_filter.mpr ⟨changed, isScript⟩, m,
      mem_components.mpr ⟨member, tagged⟩, ?_⟩
    exact (Registry.dependsOn_iff_reaches member).mpr ⟨b, reached, Module.isFile_iff.mpr isAt⟩

theorem tags_isSome_iff {changed : Option (List Path)} :
    (tags r changed).isSome = true ↔ ∃ tag, Hits r changed tag := by
  cases changed with
  | none =>
    constructor
    · intro impossible
      cases impossible
    · rintro ⟨_, _, _, _, _, impossible, _⟩
      cases impossible
  | some files =>
    simp only [tags, tagsAmong]
    cases found : hitTags r r.components (scripts files) with
    | nil =>
      constructor
      · intro impossible
        cases impossible
      · rintro ⟨tag, hits⟩
        have listed := mem_hitTags_scripts.mpr hits
        rw [found] at listed
        cases listed
    | cons t ts => exact iff_of_true rfl ⟨t, mem_hitTags_scripts.mp (found ▸ List.mem_cons_self)⟩

theorem tags_spec {changed : Option (List Path)} {ts : List String}
    (reported : tags r changed = some ts) :
    ts ≠ [] ∧ ByteOrder.Ascending ts ∧ ∀ tag, tag ∈ ts ↔ Hits r changed tag := by
  cases changed with
  | none => cases reported
  | some files =>
    simp only [tags, tagsAmong] at reported
    split at reported
    · cases reported
    · rename_i some
      cases reported
      exact ⟨some, ascending_hitTags _ _, fun tag => mem_hitTags_scripts⟩

theorem tags_congr {s : Registry} {changed others : Option (List Path)}
    (same : ∀ tag, Hits r changed tag ↔ Hits s others tag) :
    tags r changed = tags s others := by
  have together : (tags r changed).isSome = true ↔ (tags s others).isSome = true := by
    rw [tags_isSome_iff, tags_isSome_iff]
    exact exists_congr same
  cases first : tags r changed with
  | none =>
    rw [first] at together
    cases second : tags s others with
    | none => rfl
    | some us =>
      rw [second] at together
      cases together.mpr rfl
  | some ts =>
    rw [first] at together
    cases second : tags s others with
    | none =>
      rw [second] at together
      cases together.mp rfl
    | some us =>
      obtain ⟨-, ascending_ts, listed_ts⟩ := tags_spec first
      obtain ⟨-, ascending_us, listed_us⟩ := tags_spec second
      refine congrArg some (ascending_ts.eq_of_mem_iff ascending_us fun tag => ?_)
      rw [listed_ts, listed_us, same]

theorem tagsAmong_perm {order : List (Module × String)} (perm : order.Perm r.components)
    (changed : Option (List Path)) : tagsAmong r order changed = tags r changed := by
  cases changed with
  | none => rfl
  | some files => simp only [tags, tagsAmong, hitTags_perm perm]

/-- Nothing is reported exactly when nothing is hit. Otherwise each tag that is hit, and no
other, is reported once, in ascending byte order, whatever the order of the components. -/
theorem tags_exact (r : Registry) (changed : Option (List Path)) :
    (tags r changed = none ↔ ∀ tag, ¬ Hits r changed tag) ∧
    (∀ ts, tags r changed = some ts →
      (∀ tag, tag ∈ ts ↔ Hits r changed tag) ∧ ts.Nodup ∧
        ts.Pairwise fun a b => Utf8.encode a < Utf8.encode b) ∧
    ∀ order, order.Perm r.components → tagsAmong r order changed = tags r changed := by
  cases changed with
  | none =>
    refine ⟨iff_of_true rfl ?_, ?_, fun order _ => rfl⟩
    · rintro tag ⟨_, _, _, _, impossible, _⟩
      cases impossible
    · intro ts impossible
      cases impossible
  | some files =>
    have members : ∀ tag, tag ∈ hitTags r r.components (scripts files) ↔
        Hits r (some files) tag := fun tag => mem_hitTags_scripts
    have sorted : ByteOrder.Ascending (hitTags r r.components (scripts files)) :=
      ascending_hitTags r.components (scripts files)
    have same_tags : ∀ order, order.Perm r.components →
        tagsAmong r order (some files) = tags r (some files) := fun order perm => by
      simp only [tags, tagsAmong, hitTags_perm perm]
    refine ⟨?_, ?_, same_tags⟩
    · simp only [tags, tagsAmong]
      cases found : hitTags r r.components (scripts files) with
      | nil =>
        refine iff_of_true rfl fun tag hits => ?_
        have := (members tag).mpr hits
        rw [found] at this
        cases this
      | cons t ts =>
        have first := (members t).mp (found ▸ List.mem_cons_self)
        exact iff_of_false (fun none => by cases none) fun empty => empty t first
    · intro ts found
      have listed : hitTags r r.components (scripts files) = ts := by
        simp only [tags, tagsAmong] at found
        split at found
        · cases found
        · exact Option.some.inj found
      rw [← listed]
      exact ⟨members, sorted.nodup, sorted⟩

end Impact
end HotReload
