import HotReload.Proofs.Impact
import HotReload.Proofs.Records
import HotReload.Registry.Requests
import Mathlib.Data.List.Find
import Mathlib.Data.List.Induction

/-! A registry answers every request by the records that were inserted last under their paths.
Slots keep the keys they were opened with, and still hold what the registry holds: the key of a
slot and the path of its record are spellings of one path. -/
namespace HotReload.Registry

variable {r : Registry} {ms : List Module} {ss : List Slot} {p : Path}

theorem put_fst (m : Module) (es : List Module) :
    (put m es).1 = es.find? (·.source.same m.source) := by
  induction es with
  | nil => rfl
  | cons e es ih =>
    rw [put, List.find?_cons]
    split
    · rename_i same
      rw [same]
    · rename_i other
      rw [Bool.eq_false_iff.mpr other]
      exact ih

theorem insert_fst (r : Registry) (m : Module) : (r.insert m).1 = r.get? m.source :=
  put_fst m r.entries

theorem after_eq (r : Registry) (qs : List Request) :
    r.after qs = (inserted qs).foldl (fun r m => (r.insert m).2) r := by
  induction qs generalizing r with
  | nil => rfl
  | cons q qs ih =>
    rw [after, List.foldl_cons]
    cases q with
    | insert m => exact ih (r.insert m).2
    | get p => exact ih r
    | size => exact ih r
    | components => exact ih r

theorem ofList_concat (ms : List Module) (m : Module) :
    ofList (ms ++ [m]) = ((ofList ms).insert m).2 := by
  rw [ofList, List.foldl_append]
  rfl

theorem concat_eq_cut_iff {older newer : List Module} {m x : Module} :
    ms ++ [m] = older ++ x :: newer ↔
      ms = older ∧ m = x ∧ newer = [] ∨
      ∃ front, newer = front ++ [m] ∧ ms = older ++ x :: front := by
  constructor
  · intro cut
    rcases newer.eq_nil_or_concat' with rfl | ⟨front, last, rfl⟩
    · obtain ⟨rfl, one⟩ := List.append_inj' cut rfl
      exact .inl ⟨rfl, (List.cons.inj one).1, rfl⟩
    · rw [← List.cons_append, ← List.append_assoc] at cut
      obtain ⟨rfl, one⟩ := List.append_inj' cut rfl
      exact .inr ⟨front, by rw [(List.cons.inj one).1], rfl⟩
  · rintro (⟨rfl, rfl, rfl⟩ | ⟨front, rfl, rfl⟩)
    · rfl
    · rw [List.append_assoc, List.cons_append]

/-- One more record is the latest one under its own path and changes nothing under others. -/
theorem isLatest_concat {m : Module} {found : Option Module} :
    IsLatest (ms ++ [m]) p found ↔
      if m.source.same p then found = some m else IsLatest ms p found := by
  split
  · rename_i same
    have same := Path.same_iff.mp same
    have last : m ∈ ms ++ [m] := List.mem_append_right _ (List.mem_singleton_self m)
    constructor
    · -- nothing stands behind the new record, so only this one can be the latest
      intro latest
      cases found with
      | none => exact absurd same (latest m last)
      | some x =>
        obtain ⟨older, newer, cut, -, others⟩ := latest
        rcases concat_eq_cut_iff.mp cut with ⟨-, rfl, -⟩ | ⟨front, rfl, -⟩
        · rfl
        · exact absurd same (others m (List.mem_append_right _ (List.mem_singleton_self m)))
    · rintro rfl
      exact ⟨ms, [], rfl, same, fun x member => by cases member⟩
  · rename_i other
    have other : ∀ x ∈ [m], x.source.components ≠ p.components :=
      List.forall_mem_singleton.mpr (mt Path.same_iff.mpr other)
    cases found with
    | none =>
      simp only [IsLatest, List.forall_mem_append]
      exact and_iff_left other
    | some x =>
      constructor
      · rintro ⟨older, newer, cut, same, others⟩
        rcases concat_eq_cut_iff.mp cut with ⟨-, rfl, -⟩ | ⟨front, rfl, rfl⟩
        · exact absurd same (other m (List.mem_singleton_self m))
        · exact ⟨older, front, rfl, same, (List.forall_mem_append.mp others).1⟩
      · rintro ⟨older, newer, rfl, same, others⟩
        exact ⟨older, newer ++ [m], concat_eq_cut_iff.mpr (.inr ⟨newer, rfl, rfl⟩), same,
          List.forall_mem_append.mpr ⟨others, other⟩⟩

theorem isLatest_iff {found : Option Module} :
    IsLatest ms p found ↔ (ofList ms).get? p = found := by
  induction ms using List.reverseRecOn generalizing found with
  | nil => cases found <;> simp [IsLatest, ofList, get?, empty]
  | append_singleton ms m ih =>
    rw [isLatest_concat, ofList_concat, get?_insert]
    split
    · exact eq_comm
    · exact ih

theorem exists_entry_iff {cs : List Path.Component} :
    (∃ x ∈ (ofList ms).entries, x.source.components = cs) ↔
      ∃ m ∈ ms, m.source.components = cs := by
  constructor
  · rintro ⟨x, member, rfl⟩
    obtain ⟨older, newer, rfl, -⟩ := isLatest_iff.mpr (mem_entries_iff.mp member)
    exact ⟨x, List.mem_append_right _ List.mem_cons_self, rfl⟩
  · rintro ⟨m, member, rfl⟩
    cases found : (ofList ms).get? m.source with
    | none => exact absurd rfl (isLatest_iff.mpr found m member)
    | some x =>
      obtain ⟨-, -, -, same, -⟩ := isLatest_iff.mpr found
      exact ⟨x, List.mem_of_find?_eq_some found, same⟩

theorem entries_apart (r : Registry) :
    r.entries.Pairwise fun a b => a.source.components ≠ b.source.components :=
  r.distinct.imp fun apart same => by simp [Path.same, same] at apart

theorem size_ofList (ms : List Module) :
    (ofList ms).size = (ms.map (·.source.components)).toFinset.card := by
  have distinct : ((ofList ms).entries.map (·.source.components)).Nodup :=
    List.pairwise_map.mpr (entries_apart _)
  have same : ((ofList ms).entries.map (·.source.components)).toFinset =
      (ms.map (·.source.components)).toFinset := by
    ext cs
    simp only [List.mem_toFinset, List.mem_map, exists_entry_iff]
  rw [← same, List.toFinset_card_of_nodup distinct, List.length_map]
  rfl

theorem nodup_components (r : Registry) : r.components.Nodup := by
  have distinct : r.entries.Nodup := r.entries_apart.imp fun apart same => apart (by rw [same])
  refine distinct.filterMap fun m n c first second => ?_
  obtain ⟨_, -, rfl⟩ := Option.map_eq_some_iff.mp first
  obtain ⟨_, -, same⟩ := Option.map_eq_some_iff.mp second
  exact (congrArg Prod.fst same).symm

theorem keyed_fill (keyed : ∀ s ∈ ss, s.record.source.components = s.key.components)
    (m : Module) : ∀ s ∈ (fill m ss).2, s.record.source.components = s.key.components := by
  induction ss with
  | nil => simp [fill]
  | cons s ss ih =>
    obtain ⟨first, later⟩ := List.forall_mem_cons.mp keyed
    rw [fill]
    split
    · rename_i same
      exact List.forall_mem_cons.mpr ⟨(Path.same_iff.mp same).symm, later⟩
    · exact List.forall_mem_cons.mpr ⟨first, ih later⟩

theorem keyed_slots (ms : List Module) :
    ∀ s ∈ slots ms, s.record.source.components = s.key.components := by
  induction ms using List.reverseRecOn with
  | nil => simp [slots]
  | append_singleton ms m ih =>
    rw [slots, List.foldl_append]
    exact keyed_fill ih m

/-- Looking at the keys, a record takes the same place as when looking at the records. -/
theorem put_records (keyed : ∀ s ∈ ss, s.record.source.components = s.key.components)
    (m : Module) : put m (ss.map Slot.record) = ((fill m ss).1, (fill m ss).2.map Slot.record) := by
  induction ss with
  | nil => rfl
  | cons s ss ih =>
    obtain ⟨first, later⟩ := List.forall_mem_cons.mp keyed
    have one : s.record.source.same m.source = s.key.same m.source := by
      rw [Path.same, Path.same, first]
    rw [List.map_cons, put, fill, one, ih later]
    split <;> rfl

theorem entries_ofList (ms : List Module) :
    (ofList ms).entries = (slots ms).map Slot.record := by
  induction ms using List.reverseRecOn with
  | nil => rfl
  | append_singleton ms m ih =>
    rw [ofList_concat, slots, List.foldl_append]
    show (put m (ofList ms).entries).2 = _
    rw [ih, put_records (keyed_slots ms)]
    rfl

theorem isKeptIn_slots (ms : List Module) : (ofList ms).IsKeptIn (slots ms) where
  keyed := keyed_slots ms
  distinct := by
    have apart := (ofList ms).entries_apart
    rw [entries_ofList, List.pairwise_map] at apart
    refine apart.imp_of_mem fun first second differ => ?_
    rw [← keyed_slots ms _ first, ← keyed_slots ms _ second]
    exact differ
  records := entries_ofList ms
  found := by
    intro p
    rw [get?, entries_ofList, List.find?_map]
    refine congrArg (Option.map Slot.record) (List.find?_congr fun s member => ?_)
    simp only [Function.comp, Path.same, keyed_slots ms s member]
  replaced := by
    intro m
    show (put m (ofList ms).entries).1 = _
    rw [entries_ofList, put_records (keyed_slots ms)]

theorem isAnswered_serve (ms : List Module) (q : Request) :
    q.IsAnswered ms ((ofList ms).serve q).1 := by
  cases q with
  | insert m => exact isLatest_iff.mpr (insert_fst _ m).symm
  | get p => exact isLatest_iff.mpr rfl
  | size => exact size_ofList ms
  | components =>
    refine ⟨nodup_components _, fun m tag => ?_⟩
    rw [isLatest_iff, ← mem_entries_iff]
    exact Impact.mem_components

/-- After any requests, every further one is answered by the records that were inserted last
under their paths. -/
theorem answers_of_requests (before : List Request) :
    (∀ q : Request, q.IsAnswered (inserted before) ((empty.after before).serve q).1) ∧
      (∀ m, ((empty.after before).insert m).1 = (empty.after before).get? m.source) ∧
      (empty.after before).IsKeptIn (slots (inserted before)) ∧
      ofList (inserted before) = empty.after before ∧
      ∀ context, (Snapshot.mk (inserted before) context).registry = empty.after before := by
  have same : empty.after before = ofList (inserted before) := after_eq empty before
  rw [same]
  exact ⟨isAnswered_serve _, insert_fst _, isKeptIn_slots _, rfl, fun _ => rfl⟩

end HotReload.Registry
