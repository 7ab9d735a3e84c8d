import HotReload.Proofs.ComponentPaths

namespace HotReload.Path

variable {p q : Path} {k : Nat} {ss front rest : List (List UInt8)}

theorem segments_joinSegments (filled : ss ≠ []) (whole : ∀ s ∈ ss, slash ∉ s) :
    segments (joinSegments ss) = ss := by
  induction ss with
  | nil => exact absurd rfl filled
  | cons s ss ih =>
    obtain ⟨first, later⟩ := List.forall_mem_cons.mp whole
    cases ss with
    | nil => exact segments_of_not_mem first
    | cons t ts =>
      rw [joinSegments, segments_append_slash, segments_of_not_mem first, ih (by simp) later]
      rfl

theorem joinSegments_append (filled : front ≠ []) (more : rest ≠ []) :
    joinSegments (front ++ rest) = joinSegments front ++ slash :: joinSegments rest := by
  induction front with
  | nil => exact absurd rfl filled
  | cons s ss ih =>
    cases ss with
    | nil => exact joinSegments_cons s more
    | cons t ts =>
      rw [List.cons_append, joinSegments_cons s (by simp), ih (by simp)]
      simp [joinSegments]

theorem segments_joinSegments_of_split (more : rest ≠ []) (cut : p.split.2 = front ++ rest) :
    segments (joinSegments rest) = rest := by
  obtain ⟨bs, text⟩ := exists_split_eq p
  apply segments_joinSegments more
  intro s member
  have listed : s ∈ segments bs := text ▸ cut ▸ List.mem_append_right front member
  exact slash_not_mem_of_segments listed

theorem components_of_front (cut : p.split.2 = front ++ rest) (more : rest ≠ [])
    (filled : front = [] ∨ joinSegments front ≠ []) :
    (Path.mk (p.split.1.bytes ++ joinSegments front)).components =
      p.split.1.components ++ front.filterMap segmentComponent? := by
  by_cases empty : front = []
  · subst empty
    cases p.split.1 <;> rfl
  · have some_text : p.split.1.bytes ++ joinSegments front ≠ [] := by
      simp [filled.resolve_left empty]
    have text : p = ⟨(p.split.1.bytes ++ joinSegments front) ++ slash :: joinSegments rest⟩ := by
      have whole := lead_append_joinSegments p
      rw [cut, joinSegments_append empty more, ← List.append_assoc] at whole
      exact congrArg Path.mk whole.symm
    have both := split_append_slash some_text (joinSegments rest)
    rw [← text, segments_joinSegments_of_split more cut] at both
    have lead := congrArg Prod.fst both
    have body : front ++ rest = _ := cut.symm.trans (congrArg Prod.snd both)
    rw [components, ← lead, ← List.append_cancel_right body]

theorem not_root_of_segment {s : List UInt8} {c : Component}
    (stands : segmentComponent? s = some c) : c ≠ .root := by
  rintro rfl
  have text : [slash] = s := bytes_of_segment stands
  subst text
  cases stands

theorem dropTrivialEnd_cases (ss : List (List UInt8)) : dropTrivialEnd ss = [] ∨
    ∃ front s c, dropTrivialEnd ss = front ++ [s] ∧ segmentComponent? s = some c := by
  rcases List.eq_nil_or_concat (dropTrivialEnd ss) with none | ⟨front, s, kept⟩
  · exact .inl none
  · rw [List.concat_eq_append] at kept
    obtain ⟨c, stands⟩ := Option.isSome_iff_exists.mp (segmentComponent?_of_dropTrivialEnd kept)
    exact .inr ⟨front, s, c, kept, stands⟩

theorem filterMap_dropTrivialEnd (ss : List (List UInt8)) :
    (dropTrivialEnd ss).filterMap segmentComponent? = ss.filterMap segmentComponent? := by
  obtain ⟨tail, whole, trivial⟩ := dropTrivialEnd_append ss
  have nothing : tail.filterMap segmentComponent? = [] := List.filterMap_eq_nil_iff.mpr trivial
  have parts := congrArg (List.filterMap segmentComponent?) whole
  simpa [nothing] using parts

theorem components_eq_kept (p : Path) : p.components =
    p.split.1.components ++ (dropTrivialEnd p.split.2).filterMap segmentComponent? := by
  rw [filterMap_dropTrivialEnd]
  rfl

/-- The text of a parent ends in a segment that stands for a component, or in the lead. -/
theorem joinSegments_dropTrivialEnd (ss : List (List UInt8)) :
    dropTrivialEnd ss = [] ∨ joinSegments (dropTrivialEnd ss) ≠ [] := by
  rcases dropTrivialEnd_cases ss with none | ⟨front, s, c, kept, stands⟩
  · exact .inl none
  · right
    have filled : s ≠ [] := by
      rintro rfl
      cases stands
    have longer := length_joinSegments_of_concat front filled
    rw [kept]
    intro empty
    simp [empty] at longer

theorem components_of_parent (up : p.parent = some q) :
    ∃ c, p.components = q.components ++ [c] ∧ c ≠ .root := by
  have whole := components_eq_kept p
  obtain ⟨tail, ending, -⟩ := dropTrivialEnd_append p.split.2
  unfold parent at up
  split at up
  · cases up
  · cases up
  · rename_i lead none
    cases up
    rw [lead, none] at whole
    exact ⟨.current, whole, Component.noConfusion⟩
  · rename_i lead kept not_root not_nothing not_current
    rcases dropTrivialEnd_cases p.split.2 with none | ⟨above, s, c, last, stands⟩
    · cases is : p.split.1
      · exact absurd none (not_root is)
      · exact absurd none (not_current is)
      · exact absurd none (not_nothing is)
    · obtain ⟨between, front, -⟩ := dropTrivialEnd_append above
      rw [last, ← front] at ending
      have cut : p.split.2 = dropTrivialEnd above ++ (between ++ s :: tail) := by
        rw [← ending]
        simp
      have read := components_of_front cut (by simp) (joinSegments_dropTrivialEnd above)
      rw [last, List.dropLast_concat] at up
      cases up
      refine ⟨c, ?_, not_root_of_segment stands⟩
      rw [whole, read, last, filterMap_dropTrivialEnd]
      simp [stands]

theorem parent_eq_none_iff : p.parent = none ↔ p.components = [] ∨ p.components = [.root] := by
  constructor
  · intro top
    have whole := components_eq_kept p
    unfold parent at top
    split at top
    · rename_i lead none
      rw [lead, none] at whole
      exact .inr whole
    · rename_i lead none
      rw [lead, none] at whole
      exact .inl whole
    · cases top
    · cases top
  · intro short
    cases up : p.parent with
    | none => rfl
    | some q =>
      obtain ⟨c, whole, not_root⟩ := components_of_parent up
      rw [whole] at short
      rcases short with none | root
      · simp at none
      · have last := (List.append_eq_singleton_iff.mp root).resolve_right (by simp)
        exact absurd (List.singleton_inj.mp last.2) not_root

theorem isAbsolute_of_parent (up : p.parent = some q) : q.isAbsolute = p.isAbsolute := by
  obtain ⟨c, whole, not_root⟩ := components_of_parent up
  rw [Bool.eq_iff_iff, ← root_mem_components_iff, ← root_mem_components_iff, whole]
  simp [Ne.symm not_root]

theorem height_of_parent (up : p.parent = some q) : p.height = q.height + 1 := by
  obtain ⟨c, whole, -⟩ := components_of_parent up
  rw [height, height, isAbsolute_of_parent up, whole, List.length_append, List.length_singleton]
  omega

theorem height_of_top (top : p.parent = none) : p.height = 1 := by
  have lead := root_mem_components_iff (p := p)
  rcases parent_eq_none_iff.mp top with none | root
  · have relative : ¬ p.isAbsolute = true := by simpa [none] using lead
    simp [height, none, relative]
  · have absolute : p.isAbsolute = true := by simpa [root] using lead
    simp [height, root, absolute]

/-- The chain of parents is as long as the path is high. -/
theorem above_isSome_iff (p : Path) (k : Nat) : (p.above k).isSome = true ↔ k < p.height := by
  induction k generalizing p with
  | zero =>
    cases up : p.parent with
    | none => simp [above, height_of_top up]
    | some q => simp [above, height_of_parent up]
  | succ k ih =>
    cases up : p.parent with
    | none => simp [above, up, height_of_top up]
    | some q => simp [above, up, height_of_parent up, ih]

theorem components_of_above (reached : p.above k = some q) :
    q.components = p.components.take (p.components.length - k) := by
  induction k generalizing p with
  | zero =>
    cases reached
    exact List.take_length.symm
  | succ k ih =>
    obtain ⟨r, up, further⟩ := Option.bind_eq_some_iff.mp reached
    obtain ⟨c, whole, -⟩ := components_of_parent up
    have shorter : p.components.length - (k + 1) = r.components.length - k := by
      rw [whole, List.length_append, List.length_singleton]
      omega
    rw [ih further, shorter, whole, List.take_append_of_le_length (Nat.sub_le _ _)]

theorem getElem?_ancestors (p : Path) (k : Nat) : p.ancestors[k]? = p.above k := by
  induction k generalizing p with
  | zero =>
    rw [ancestors]
    rfl
  | succ k ih =>
    rw [ancestors, List.getElem?_cons_succ, above]
    split
    · rename_i top
      simp [top]
    · rename_i q up
      simp [up, ih]

end HotReload.Path
