import HotReload.Path.Ancestors

namespace HotReload.Path

theorem same_iff {p q : Path} : p.same q = true ↔ p.components = q.components := by
  simp only [same, beq_iff_eq]

def behindLead (p : Path) : List Component := p.split.2.filterMap segmentComponent?

theorem segments_append_slash (as bs : List UInt8) :
    segments (as ++ slash :: bs) = segments as ++ segments bs := by
  induction as with
  | nil => simp [segments]
  | cons a as ih =>
    rw [List.cons_append, segments, segments, ih]
    split
    · rfl
    · cases front : segments as with
      | nil => exact absurd front (segments_ne_nil as)
      | cons s ss => rfl

theorem split_append_slash {as : List UInt8} (filled : as ≠ []) (bs : List UInt8) :
    (Path.mk (as ++ slash :: bs)).split =
      ((Path.mk as).split.1, (Path.mk as).split.2 ++ segments bs) := by
  cases as with
  | nil => exact absurd rfl filled
  | cons a r =>
    have dotted : (r ++ slash :: bs = [] ∨ (r ++ slash :: bs).head? = some slash) ↔
        (r = [] ∨ r.head? = some slash) := by
      cases r with
      | nil => simp
      | cons b r => simp
    simp only [split, List.cons_append, dotted]
    split
    · rw [segments_append_slash]
    · split
      · rw [segments_append_slash]
      · rw [← List.cons_append, segments_append_slash]

theorem lead_eq_root_iff {p : Path} : p.split.1 = .root ↔ p.isAbsolute = true := by
  obtain ⟨bs⟩ := p
  cases bs with
  | nil => simp [split, isAbsolute]
  | cons b r =>
    simp only [split, isAbsolute, List.head?_cons]
    split
    · rename_i is_slash
      simp [is_slash]
    · rename_i not_slash
      split <;> simp [not_slash]

theorem filterMap_segments {p : Path} (relative : p.isAbsolute = false) :
    (segments p.bytes).filterMap segmentComponent? = p.behindLead := by
  obtain ⟨bs⟩ := p
  cases bs with
  | nil => rfl
  | cons b r =>
    have not_slash : b ≠ slash := by
      intro is_slash
      simp [isAbsolute, is_slash] at relative
    simp only [behindLead, split, if_neg not_slash]
    split
    · rename_i dotted
      obtain ⟨rfl, ending⟩ := dotted
      cases r with
      | nil => rfl
      | cons c r =>
        have is_slash : c = slash := by simpa using ending
        subst is_slash
        have cut : segments (dot :: slash :: r) = [dot] :: segments r :=
          segments_append_slash [dot] r
        rw [cut]
        rfl
    · rfl

theorem mem_behindLead {p : Path} {c : Component} (member : c ∈ p.behindLead) :
    c ≠ .root ∧ c ≠ .current := by
  obtain ⟨s, -, stands⟩ := List.mem_filterMap.mp member
  unfold segmentComponent? at stands
  split at stands
  · cases stands
  · split at stands
    · cases stands
    · split at stands <;> cases stands <;> simp

theorem components_eq_iff {p q : Path} :
    p.components = q.components ↔ p.split.1 = q.split.1 ∧ p.behindLead = q.behindLead := by
  constructor
  · intro same
    have whole : p.split.1.components ++ p.behindLead =
        q.split.1.components ++ q.behindLead := same
    cases hp : p.split.1 <;> cases hq : q.split.1 <;>
      simp only [hp, hq, Lead.components, List.nil_append, List.singleton_append,
        List.cons.injEq, reduceCtorEq, false_and, true_and] at whole
    · exact ⟨rfl, whole⟩
    · exact absurd rfl (mem_behindLead (whole ▸ List.mem_cons_self)).1
    · exact ⟨rfl, whole⟩
    · exact absurd rfl (mem_behindLead (whole ▸ List.mem_cons_self)).2
    · exact absurd rfl (mem_behindLead (whole ▸ List.mem_cons_self)).1
    · exact absurd rfl (mem_behindLead (whole ▸ List.mem_cons_self)).2
    · exact ⟨rfl, whole⟩
  · rintro ⟨lead, rest⟩
    show p.split.1.components ++ p.behindLead = q.split.1.components ++ q.behindLead
    rw [lead, rest]

theorem ne_nil_of_isAbsolute {p : Path} (absolute : p.isAbsolute = true) : p.bytes ≠ [] := by
  intro empty
  rw [isAbsolute, empty] at absolute
  cases absolute

theorem slash_not_mem_of_segments {bs s : List UInt8} (cut : s ∈ segments bs) : slash ∉ s := by
  induction bs generalizing s with
  | nil =>
    obtain rfl := List.mem_singleton.mp cut
    exact List.not_mem_nil
  | cons b r ih =>
    unfold segments at cut
    split at cut
    · rcases List.mem_cons.mp cut with rfl | cut
      · exact List.not_mem_nil
      · exact ih cut
    · rename_i not_slash
      cases front : segments r with
      | nil => exact absurd front (segments_ne_nil r)
      | cons t ts =>
        rw [front] at cut ih
        rcases List.mem_cons.mp cut with rfl | cut
        · exact List.not_mem_cons_of_ne_of_not_mem (Ne.symm not_slash) (ih List.mem_cons_self)
        · exact ih (List.mem_cons_of_mem t cut)

theorem segments_of_not_mem {s : List UInt8} (whole : slash ∉ s) : segments s = [s] := by
  induction s with
  | nil => rfl
  | cons b r ih =>
    rw [List.mem_cons, not_or] at whole
    rw [segments, if_neg (Ne.symm whole.1), ih whole.2]

theorem join_of_absolute {q : Path} (absolute : q.isAbsolute = true) (p : Path) :
    p.join q = q := by
  rw [join, if_pos absolute]

theorem join_empty {p : Path} (empty : p.bytes = []) (q : Path) : p.join q = q := by
  unfold join
  split
  · rfl
  · rw [if_pos (.inl empty), empty, List.nil_append]

theorem join_of_relative {p q : Path} (filled : p.bytes ≠ []) (relative : q.isAbsolute = false) :
    (p.join q).split.1 = p.split.1 ∧ (p.join q).behindLead = p.behindLead ++ q.behindLead := by
  have not_absolute : ¬ q.isAbsolute = true := by simp [relative]
  rw [join, if_neg not_absolute, ← filterMap_segments relative]
  split
  · rename_i ending
    have last : p.bytes.getLast? = some slash := ending.resolve_left filled
    obtain ⟨front, text⟩ := List.getLast?_eq_some_iff.mp last
    have p_eq : p = ⟨front ++ slash :: []⟩ := congrArg Path.mk text
    rw [p_eq, List.append_assoc, List.singleton_append]
    cases front with
    | nil => exact ⟨rfl, rfl⟩
    | cons b r =>
      rw [behindLead, behindLead, split_append_slash (by simp), split_append_slash (by simp)]
      refine ⟨rfl, ?_⟩
      rw [List.filterMap_append, List.filterMap_append, List.append_assoc]
      rfl
  · rw [behindLead, split_append_slash filled]
    exact ⟨rfl, List.filterMap_append⟩

/-- Joined to one directory, paths that begin alike stay as different as they were. -/
theorem join_same_iff {d e : Path} (alike : d.split.1 = e.split.1) (root : Path) :
    (root.join d).components = (root.join e).components ↔ d.components = e.components := by
  by_cases empty : root.bytes = []
  · rw [join_empty empty, join_empty empty]
  · cases absolute : d.isAbsolute with
    | true =>
      have both : e.isAbsolute = true :=
        lead_eq_root_iff.mp (alike ▸ lead_eq_root_iff.mpr absolute)
      rw [join_of_absolute absolute, join_of_absolute both]
    | false =>
      have both : e.isAbsolute = false := by
        rw [Bool.eq_false_iff, ne_eq, ← lead_eq_root_iff, ← alike, lead_eq_root_iff, absolute]
        exact Bool.false_ne_true
      obtain ⟨lead_d, rest_d⟩ := join_of_relative empty absolute
      obtain ⟨lead_e, rest_e⟩ := join_of_relative empty both
      rw [components_eq_iff, components_eq_iff, lead_d, lead_e, rest_d, rest_e,
        List.append_cancel_left_eq]
      simp only [alike, true_and]

end HotReload.Path
