import HotReload.Proofs.RelativePaths

namespace HotReload.Path

variable {cs done names : List Component} {p q : Path}

/-- Nothing is left to fold: any `..` stand in one run at the front, and none behind the root. -/
structure IsNormal (cs : List Component) : Prop where
  no_current : .current ∉ cs
  parents_first : ∃ ups rest, cs = List.replicate ups .parent ++ rest ∧ .parent ∉ rest
  below_root : .root ∈ cs → cs.head? = some .root ∧ .parent ∉ cs

theorem root_not_mem_of_names (names_only : ∀ c ∈ names, c.IsName) : .root ∉ names := by
  intro member
  obtain ⟨n, impossible⟩ := names_only .root member
  cases impossible

theorem isNormal_folded (p : Path) : IsNormal p.folded := by
  cases absolute : p.isAbsolute with
  | true =>
    obtain ⟨names, names_only, whole⟩ := folded_of_absolute absolute
    have no_parent := parent_not_mem_of_names names_only
    constructor
    · exact current_not_mem_folded
    · exact ⟨0, p.folded, rfl, by simp [whole, no_parent]⟩
    · intro _
      simp [whole, no_parent]
  | false =>
    obtain ⟨ups, names, names_only, whole⟩ := folded_of_relative absolute
    constructor
    · exact current_not_mem_folded
    · exact ⟨ups, names, whole, parent_not_mem_of_names names_only⟩
    · intro member
      have impossible := root_mem_folded_iff.mp member
      simp [absolute] at impossible

theorem settled_names (names_only : ∀ c ∈ names, c.IsName) (settled : Settled done) :
    Settled (names ++ done) := by
  induction names with
  | nil => exact settled
  | cons c names ih =>
    obtain ⟨⟨n, rfl⟩, others⟩ := List.forall_mem_cons.mp names_only
    exact .cons rfl (ih others)

theorem settled_parents (ups : Nat) : Settled (List.replicate ups .parent) := by
  induction ups with
  | zero => exact .nil
  | succ ups ih =>
    apply Settled.cons _ ih
    cases ups <;> rfl

theorem isName_of_ne {c : Component} (not_root : c ≠ .root) (not_current : c ≠ .current)
    (not_parent : c ≠ .parent) : c.IsName := by
  cases c with
  | root => exact absurd rfl not_root
  | current => exact absurd rfl not_current
  | parent => exact absurd rfl not_parent
  | name n => exact ⟨n, rfl⟩

/-- Where nothing is left to fold, each component is kept when it comes. -/
theorem settled_of_isNormal (normal : IsNormal p.components) : Settled p.components.reverse := by
  obtain ⟨no_current, ⟨ups, rest, whole, no_parent⟩, below_root⟩ := normal
  by_cases rooted : .root ∈ p.components
  · have lead := components_of_absolute (root_mem_components_iff.mp rooted)
    have names_only : ∀ c ∈ p.behindLead.reverse, c.IsName := by
      intro c member
      have behind := List.mem_reverse.mp member
      have kept : c ∈ p.components := lead ▸ List.mem_cons_of_mem _ behind
      apply isName_of_ne (mem_behindLead behind).1
      · exact ne_of_mem_of_not_mem kept no_current
      · exact ne_of_mem_of_not_mem kept (below_root rooted).2
    rw [lead, List.reverse_cons]
    exact settled_names names_only (.cons rfl .nil)
  · have names_only : ∀ c ∈ rest.reverse, c.IsName := by
      intro c member
      have behind := List.mem_reverse.mp member
      have kept : c ∈ p.components := whole ▸ List.mem_append_right _ behind
      apply isName_of_ne (ne_of_mem_of_not_mem kept rooted)
      · exact ne_of_mem_of_not_mem kept no_current
      · exact ne_of_mem_of_not_mem behind no_parent
    rw [whole, List.reverse_append, List.reverse_replicate]
    exact settled_names names_only (settled_parents ups)

theorem folded_eq_components_iff : p.folded = p.components ↔ IsNormal p.components := by
  constructor
  · intro same
    exact same ▸ isNormal_folded p
  · intro normal
    exact foldComponents_of_settled (settled_of_isNormal normal)

theorem components_ofComponents_folded (p : Path) :
    (ofComponents p.folded).components = p.folded := by
  have segments : ∀ c ∈ p.folded, c ≠ .root → c.IsSegment := fun c => isSegment_of_mem_folded
  cases absolute : p.isAbsolute with
  | true =>
    obtain ⟨names, names_only, whole⟩ := folded_of_absolute absolute
    have inner := root_not_mem_of_names names_only
    rw [whole] at segments ⊢
    apply components_ofComponents_root []
    intro c member
    exact segments c (List.mem_cons_of_mem _ member) fun root => inner (root ▸ member)
  | false =>
    apply components_ofComponents
    intro c member
    apply segments c member
    rintro rfl
    have impossible := root_mem_folded_iff.mp member
    simp [absolute] at impossible

theorem folded_ofComponents (p : Path) : (ofComponents p.folded).folded = p.folded := by
  rw [folded, components_ofComponents_folded, foldComponents_folded]

theorem isAbsolute_ofComponents (p : Path) :
    (ofComponents p.folded).isAbsolute = p.isAbsolute := by
  rw [Bool.eq_iff_iff, ← root_mem_components_iff, components_ofComponents_folded,
    root_mem_folded_iff]

theorem head_folded_iff : p.folded.head? = some .root ↔ p.isAbsolute = true := by
  constructor
  · intro first
    exact root_mem_folded_iff.mp (List.mem_of_head? first)
  · intro absolute
    obtain ⟨names, -, whole⟩ := folded_of_absolute absolute
    rw [whole]
    rfl

theorem stack_ofComponents (p : Path) : (ofComponents p.folded).stack = p.stack := by
  rw [← reverse_folded, folded_ofComponents, reverse_folded]

/-- A joined path is folded alike whichever of two paths with one stack comes first. -/
theorem folded_join_congr {other : Path} (same : other.stack = p.stack) (q : Path) :
    (other.join q).folded = (p.join q).folded := by
  cases absolute : q.isAbsolute with
  | true => rw [join_of_absolute absolute, join_of_absolute absolute]
  | false =>
    have one_stack : (other.join q).stack = (p.join q).stack := by
      rw [stack_join absolute, stack_join absolute, same]
    exact congrArg List.reverse one_stack

/-- A name and the `..` behind it cancel. -/
theorem folded_join_parent {n : List UInt8} (named : q.components = [.name n]) :
    ((p.join q).join ⟨Component.parent.bytes⟩).folded = p.folded := by
  have relative : q.isAbsolute = false := by
    rw [Bool.eq_false_iff, ne_eq, ← root_mem_components_iff, named]
    simp
  have above : (Path.mk Component.parent.bytes).components = [.parent] := rfl
  have one_stack : ((p.join q).join ⟨Component.parent.bytes⟩).stack = p.stack := by
    rw [stack_join rfl, stack_join relative, named, above]
    rfl
  exact congrArg List.reverse one_stack

/-- The folded form of a path is normal, and it is the path's own components where these are
normal already. The path made of it has these components again and starts where the path starts.
Joined to any path, both are folded alike; so a name that is joined and left again is gone. -/
theorem folded_normal (p : Path) :
    IsNormal p.folded ∧ (p.folded = p.components ↔ IsNormal p.components) ∧
    (p.folded.head? = some .root ↔ p.isAbsolute = true) ∧
    (p.isAbsolute = true → .parent ∉ p.folded) ∧
    (ofComponents p.folded).isAbsolute = p.isAbsolute ∧
    (ofComponents p.folded).folded = p.folded ∧
    (∀ q : Path, (p.join q).folded = ((ofComponents p.folded).join q).folded) ∧
    ∀ (q : Path) (n : List UInt8), q.components = [.name n] →
      ((p.join q).join ⟨Component.parent.bytes⟩).folded = p.folded := by
  refine ⟨isNormal_folded p, folded_eq_components_iff, head_folded_iff, ?_,
    isAbsolute_ofComponents p, folded_ofComponents p, ?_, fun q n => folded_join_parent⟩
  · intro absolute
    exact ((isNormal_folded p).below_root (root_mem_folded_iff.mpr absolute)).2
  · intro q
    exact (folded_join_congr (stack_ofComponents p) q).symm

end HotReload.Path
