import HotReload.Proofs.Folding

namespace HotReload.Path

variable {cs : List Component} {c : Component} {p : Path}

def Component.IsSegment (c : Component) : Prop :=
  slash ∉ c.bytes ∧ segmentComponent? c.bytes = some c

theorem bytes_of_segment {s : List UInt8} (stands : segmentComponent? s = some c) :
    c.bytes = s := by
  unfold segmentComponent? at stands
  split at stands
  · cases stands
  · split at stands
    · cases stands
    · split at stands
      · rename_i dots
        cases stands
        exact dots.symm
      · cases stands
        rfl

theorem isSegment_parent : Component.parent.IsSegment := by
  unfold Component.IsSegment
  decide

theorem exists_split_eq (p : Path) : ∃ bs, p.split.2 = segments bs := by
  obtain ⟨bytes⟩ := p
  cases bytes with
  | nil => exact ⟨[], rfl⟩
  | cons b r =>
    unfold split
    dsimp only
    split
    · exact ⟨r, rfl⟩
    · split
      · exact ⟨r, rfl⟩
      · exact ⟨b :: r, rfl⟩

theorem isSegment_of_mem_behindLead (member : c ∈ p.behindLead) : c.IsSegment := by
  obtain ⟨s, cut, stands⟩ := List.mem_filterMap.mp member
  obtain ⟨bs, whole⟩ := exists_split_eq p
  rw [whole] at cut
  rw [Component.IsSegment, bytes_of_segment stands]
  exact ⟨slash_not_mem_of_segments cut, stands⟩

theorem mem_behindLead_of_components (member : c ∈ p.components) (not_root : c ≠ .root)
    (not_current : c ≠ .current) : c ∈ p.behindLead := by
  cases absolute : p.isAbsolute with
  | true =>
    rw [components_of_absolute absolute] at member
    exact (List.mem_cons.mp member).resolve_left not_root
  | false =>
    rcases components_of_relative absolute with same | same <;> rw [same] at member
    · exact member
    · exact (List.mem_cons.mp member).resolve_left not_current

theorem lead_of_segment (segment : c.IsSegment) : (Path.mk c.bytes).split.1 = .nothing := by
  obtain ⟨whole, stands⟩ := segment
  cases text : c.bytes with
  | nil => rfl
  | cons b r =>
    rw [text] at whole stands
    obtain ⟨not_slash, behind⟩ := not_or.mp (mt List.mem_cons.mpr whole)
    have not_dot : ¬ (b = dot ∧ (r = [] ∨ r.head? = some slash)) := by
      rintro ⟨rfl, rfl | next⟩
      · cases stands
      · exact behind (List.mem_of_head? next)
    simp only [split, Ne.symm not_slash, not_dot, if_false]

theorem isAbsolute_of_segment (segment : c.IsSegment) : (Path.mk c.bytes).isAbsolute = false := by
  rw [Bool.eq_false_iff, ne_eq, ← lead_eq_root_iff, lead_of_segment segment]
  exact Lead.noConfusion

theorem behindLead_of_segment (segment : c.IsSegment) : (Path.mk c.bytes).behindLead = [c] := by
  rw [← filterMap_segments (isAbsolute_of_segment segment), segments_of_not_mem segment.1,
    List.filterMap_cons_some segment.2]
  rfl

theorem components_of_segment (segment : c.IsSegment) : (Path.mk c.bytes).components = [c] := by
  show (Path.mk c.bytes).split.1.components ++ (Path.mk c.bytes).behindLead = [c]
  rw [lead_of_segment segment, behindLead_of_segment segment]
  rfl

theorem components_push (segment : c.IsSegment) (p : Path) :
    (p.push c).components = p.components ++ [c] := by
  by_cases empty : p.bytes = []
  · have nothing : p.components = [] := by
      obtain ⟨bytes⟩ := p
      obtain rfl : bytes = [] := empty
      rfl
    rw [push, join_empty empty, nothing, components_of_segment segment]
    rfl
  · obtain ⟨lead, rest⟩ := join_of_relative empty (isAbsolute_of_segment segment)
    show (p.push c).split.1.components ++ (p.push c).behindLead = _
    rw [push, lead, rest, behindLead_of_segment segment, ← List.append_assoc]
    rfl

theorem components_foldl_push (segments : ∀ c ∈ cs, c.IsSegment) (p : Path) :
    (cs.foldl push p).components = p.components ++ cs := by
  induction cs generalizing p with
  | nil => exact (List.append_nil _).symm
  | cons c cs ih =>
    obtain ⟨first, later⟩ := List.forall_mem_cons.mp segments
    rw [List.foldl_cons, ih later, components_push first, List.append_assoc]
    rfl

theorem components_ofComponents (segments : ∀ c ∈ cs, c.IsSegment) :
    (ofComponents cs).components = cs := components_foldl_push segments ⟨[]⟩

theorem components_ofComponents_root (front : List Component)
    (segments : ∀ c ∈ cs, c.IsSegment) :
    (ofComponents (front ++ .root :: cs)).components = .root :: cs := by
  rw [ofComponents, List.foldl_append, List.foldl_cons]
  have anew : (front.foldl push ⟨[]⟩).push .root = ⟨[slash]⟩ := join_of_absolute rfl _
  rw [anew, components_foldl_push segments]
  rfl

end HotReload.Path
