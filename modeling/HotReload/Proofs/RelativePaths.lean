import HotReload.Proofs.ComponentPaths

/-! The relative path leads from the directory to the target, and no shorter one does.
Each component of a path takes one step in the tree of folded paths: down to a name, up, or none.
The way from one place to another goes up to where the two folded paths part, and down again. -/
namespace HotReload.Path

variable {cs done xs ys front left right : List Component} {base target q : Path}

/-- `front` is the longest common front of two lists; `left` and `right` follow it. -/
structure Fork (xs ys front left right : List Component) : Prop where
  first : xs = front ++ left
  second : ys = front ++ right
  apart : ∀ c, left.head? = some c → right.head? ≠ some c

theorem relativeComponents_cons (c : Component) (xs ys : List Component) :
    relativeComponents (c :: xs) (c :: ys) = relativeComponents xs ys := by
  simp [relativeComponents, commonLength]

theorem relativeComponents_of_apart (apart : ∀ c, xs.head? = some c → ys.head? ≠ some c) :
    relativeComponents xs ys = List.replicate xs.length .parent ++ ys := by
  have none_common : commonLength xs ys = 0 := by
    unfold commonLength
    split
    · rename_i a as b bs
      exact if_neg fun same => apart a rfl (congrArg some same.symm)
    · rfl
  rw [relativeComponents, none_common]
  rfl

theorem length_of_apart (apart : ∀ c, xs.head? = some c → ys.head? ≠ some c) :
    (relativeComponents xs ys).length = xs.length + ys.length := by
  rw [relativeComponents_of_apart apart, List.length_append, List.length_replicate]

theorem head_apart {x y : Component} (other : x ≠ y) :
    ∀ c, (x :: xs).head? = some c → (y :: ys).head? ≠ some c := by
  simpa using Ne.symm other

theorem exists_fork (xs ys : List Component) : ∃ front left right,
    Fork xs ys front left right ∧
      relativeComponents xs ys = List.replicate left.length .parent ++ right := by
  have here {xs ys : List Component} (apart : ∀ c, xs.head? = some c → ys.head? ≠ some c) :
      ∃ front left right, Fork xs ys front left right ∧
        relativeComponents xs ys = List.replicate left.length .parent ++ right :=
    ⟨[], xs, ys, ⟨rfl, rfl, apart⟩, relativeComponents_of_apart apart⟩
  induction xs generalizing ys with
  | nil => exact here (by simp)
  | cons x xs ih =>
    cases ys with
    | nil => exact here (by simp)
    | cons y ys =>
      by_cases same : x = y
      · subst same
        obtain ⟨front, left, right, ⟨rfl, rfl, apart⟩, way⟩ := ih ys
        exact ⟨x :: front, left, right, ⟨rfl, rfl, apart⟩,
          (relativeComponents_cons _ _ _).trans way⟩
      · exact here (head_apart same)

theorem Fork.symm (fork : Fork xs ys front left right) : Fork ys xs front right left :=
  ⟨fork.second, fork.first, fun c there here => fork.apart c here there⟩

theorem Fork.isPrefix_iff (fork : Fork xs ys front left right) : xs <+: ys ↔ left = [] := by
  obtain ⟨rfl, rfl, apart⟩ := fork
  rw [List.prefix_append_right_inj]
  constructor
  · rintro ⟨further, rfl⟩
    cases left with
    | nil => rfl
    | cons c left => exact absurd rfl (apart c rfl)
  · rintro rfl
    exact List.nil_prefix

theorem Fork.front_eq_nil (fork : Fork xs (.root :: ys) front left right) (inner : .root ∉ xs) :
    front = [] := by
  cases front with
  | nil => rfl
  | cons c front =>
    obtain ⟨rfl, -⟩ := List.cons.inj fork.second
    exact absurd (fork.first ▸ List.mem_cons_self) inner

theorem Fork.below_root (fork : Fork (.root :: xs) (.root :: ys) front left right) :
    ∃ above, front = .root :: above ∧ xs = above ++ left ∧ ys = above ++ right := by
  obtain ⟨first, second, apart⟩ := fork
  cases front with
  | nil =>
    rw [List.nil_append] at first second
    subst first second
    exact absurd rfl (apart .root rfl)
  | cons c front =>
    obtain ⟨rfl, rfl⟩ := List.cons.inj first
    exact ⟨front, rfl, rfl, (List.cons.inj second).2⟩

theorem root_mem_folded_iff : .root ∈ base.folded ↔ base.isAbsolute = true := by
  constructor
  · exact fun member => root_mem_components_iff.mp (mem_components_of_folded member)
  · intro absolute
    obtain ⟨ns, -, whole⟩ := folded_of_absolute absolute
    rw [whole]
    exact List.mem_cons_self

/-- Below the root, folded paths are made of names. -/
theorem Fork.names_only (fork : Fork base.folded target.folded front left right)
    (from_root : base.isAbsolute = true) (to_root : target.isAbsolute = true) :
    (∀ c ∈ left, c.IsName) ∧ ∀ c ∈ right, c.IsName := by
  obtain ⟨xs, base_names, base_eq⟩ := folded_of_absolute from_root
  obtain ⟨ys, target_names, target_eq⟩ := folded_of_absolute to_root
  rw [base_eq, target_eq] at fork
  obtain ⟨above, -, rfl, rfl⟩ := fork.below_root
  exact ⟨(List.forall_mem_append.mp base_names).2, (List.forall_mem_append.mp target_names).2⟩

theorem Fork.root_not_mem (fork : Fork base.folded target.folded front left right)
    (shared : target.isAbsolute = true → base.isAbsolute = true) : .root ∉ right := by
  intro member
  have absolute : target.isAbsolute = true :=
    root_mem_folded_iff.mp (fork.second ▸ List.mem_append_right front member)
  obtain ⟨n, impossible⟩ := (fork.names_only (shared absolute) absolute).2 .root member
  cases impossible

theorem Fork.names_of_relative (fork : Fork base.folded target.folded front left right)
    (relative : base.isAbsolute = false) (no_parent : .parent ∉ left) :
    ∀ c ∈ left, c.IsName := by
  intro c member
  have kept : c ∈ base.folded := fork.first ▸ List.mem_append_right front member
  cases c with
  | name n => exact ⟨n, rfl⟩
  | parent => exact absurd member no_parent
  | current => exact absurd kept current_not_mem_folded
  | root =>
    rw [root_mem_folded_iff.mp kept] at relative
    cases relative

theorem isSegment_of_mem_folded {c : Component} (member : c ∈ target.folded)
    (not_root : c ≠ .root) : c.IsSegment := by
  refine isSegment_of_mem_behindLead (mem_behindLead_of_components
    (mem_components_of_folded member) not_root ?_)
  rintro rfl
  exact current_not_mem_folded member

/-- Where the target does not start anew at the root, the path is what it was put together from. -/
theorem components_relativeTo (fork : Fork base.folded target.folded front left right)
    (way : relativeComponents base.folded target.folded =
      List.replicate left.length .parent ++ right) (inner : .root ∉ right) :
    (base.relativeTo target).components = List.replicate left.length .parent ++ right := by
  rw [relativeTo, way]
  refine components_ofComponents fun c member => ?_
  rcases List.mem_append.mp member with up | down
  · rw [List.eq_of_mem_replicate up]
    exact isSegment_parent
  · exact isSegment_of_mem_folded (fork.second ▸ List.mem_append_right front down)
      fun root => inner (root ▸ down)

/-- The way that goes up along names leads from one stack to the other. -/
theorem stack_of_fork (fork : Fork base.folded target.folded front left right)
    (names_only : ∀ c ∈ left, c.IsName) :
    (List.replicate left.length Component.parent ++ right).foldl foldStep base.stack =
      target.stack := by
  have start : base.stack = left.reverse ++ front.reverse := by
    rw [← reverse_folded, fork.first, List.reverse_append]
  have goal : target.stack = right.reverse ++ front.reverse := by
    rw [← reverse_folded, fork.second, List.reverse_append]
  have settled := settled_stack target
  rw [goal] at settled
  rw [List.foldl_append, start, ← List.length_reverse,
    foldl_parents fun c member => names_only c (List.mem_reverse.mp member), goal]
  simpa using foldl_of_settled settled

theorem folded_join_of_fork (fork : Fork base.folded target.folded front left right)
    (way : relativeComponents base.folded target.folded =
      List.replicate left.length .parent ++ right) (inner : .root ∉ right)
    (names_only : ∀ c ∈ left, c.IsName) :
    (base.join (base.relativeTo target)).folded = target.folded := by
  have whole := components_relativeTo fork way inner
  have relative : (base.relativeTo target).isAbsolute = false := by
    rw [Bool.eq_false_iff, ne_eq, ← root_mem_components_iff, whole]
    simp [inner]
  rw [← reverse_stack, stack_join relative, whole, stack_of_fork fork names_only, reverse_stack]

theorem components_relativeTo_root (from_nowhere : base.isAbsolute = false)
    (absolute : target.isAbsolute = true) :
    (base.relativeTo target).components = target.folded := by
  obtain ⟨ns, names_only, whole⟩ := folded_of_absolute absolute
  have not_root : .root ∉ base.folded := by
    rw [root_mem_folded_iff, from_nowhere]
    exact Bool.false_ne_true
  obtain ⟨front, left, right, fork, way⟩ := exists_fork base.folded target.folded
  obtain rfl := (whole ▸ fork).front_eq_nil not_root
  have right_eq : right = .root :: ns := fork.second.symm.trans whole
  rw [relativeTo, way, right_eq, whole]
  refine components_ofComponents_root _ fun c member => ?_
  have kept : c ∈ target.folded := whole ▸ List.mem_cons_of_mem _ member
  refine isSegment_of_mem_folded kept ?_
  obtain ⟨n, rfl⟩ := names_only c member
  exact Component.noConfusion

theorem folded_join_root (from_nowhere : base.isAbsolute = false)
    (absolute : target.isAbsolute = true) :
    (base.join (base.relativeTo target)).folded = target.folded := by
  have whole := components_relativeTo_root from_nowhere absolute
  have anew : (base.relativeTo target).isAbsolute = true := by
    rw [← root_mem_components_iff, whole, root_mem_folded_iff]
    exact absolute
  rw [join_of_absolute anew, folded, whole, foldComponents_folded]

/-- One component more or less in front changes the way by one step at most. -/
theorem length_relativeComponents_concat (xs ys : List Component) (c : Component) :
    (relativeComponents xs ys).length ≤ (relativeComponents (xs ++ [c]) ys).length + 1 ∧
      (relativeComponents (xs ++ [c]) ys).length ≤ (relativeComponents xs ys).length + 1 := by
  induction xs generalizing ys with
  | nil =>
    have short : (relativeComponents [] ys).length = 0 + ys.length := length_of_apart (by simp)
    cases ys with
    | nil => simp [relativeComponents, commonLength]
    | cons y ys =>
      rw [short, List.nil_append]
      by_cases same : c = y
      · subst same
        rw [relativeComponents_cons, length_of_apart (by simp), List.length_nil, List.length_cons]
        omega
      · rw [length_of_apart (head_apart same), List.length_singleton, List.length_cons]
        omega
  | cons x xs ih =>
    rw [List.cons_append]
    cases ys with
    | nil => simp [relativeComponents, commonLength]
    | cons y ys =>
      by_cases same : x = y
      · subst same
        rw [relativeComponents_cons, relativeComponents_cons]
        exact ih ys
      · rw [length_of_apart (head_apart same), length_of_apart (head_apart same)]
        simp only [List.length_cons, List.length_append, List.length_nil]
        omega

theorem foldStep_cases (done : List Component) (c : Component) :
    foldStep done c = done ∨ (∃ d, done = d :: foldStep done c) ∨ foldStep done c = c :: done := by
  unfold foldStep
  split
  · exact .inl rfl
  · split
    · exact .inr (.inl ⟨_, rfl⟩)
    · exact .inl rfl
    · exact .inr (.inr rfl)
  · exact .inr (.inr rfl)

/-- Folding takes at least as many components as the way from one stack to the other has. -/
theorem length_relativeComponents_le (cs done ys : List Component) :
    (relativeComponents done.reverse ys).length ≤
      cs.length + (relativeComponents (cs.foldl foldStep done).reverse ys).length := by
  induction cs generalizing done with
  | nil => exact Nat.le_of_eq (Nat.zero_add _).symm
  | cons c cs ih =>
    have later := ih (foldStep done c)
    -- a component takes one place from the stack or puts one onto it, or leaves the stack alone
    have first : (relativeComponents done.reverse ys).length ≤
        (relativeComponents (foldStep done c).reverse ys).length + 1 := by
      rcases foldStep_cases done c with same | ⟨d, popped⟩ | pushed
      · rw [same]
        exact Nat.le_succ _
      · have near := length_relativeComponents_concat (foldStep done c).reverse ys d
        rw [← List.reverse_cons, ← popped] at near
        exact near.2
      · have near := length_relativeComponents_concat done.reverse ys c
        rw [← List.reverse_cons, ← pushed] at near
        exact near.1
    rw [List.foldl_cons, List.length_cons]
    omega

theorem relativeComponents_self (xs : List Component) : relativeComponents xs xs = [] := by
  induction xs with
  | nil => rfl
  | cons x xs ih => rw [relativeComponents_cons, ih]

theorem length_le_of_folded_join (relative : q.isAbsolute = false)
    (reaches : (base.join q).folded = target.folded) :
    (relativeComponents base.folded target.folded).length ≤ q.components.length := by
  have steps := length_relativeComponents_le q.components base.stack target.folded
  rw [← stack_join relative, reverse_stack, reverse_stack, reaches,
    relativeComponents_self] at steps
  exact steps

/-- Joined to the directory, the relative path leads to the target. It goes up as often as the
folded directory is longer than the common front, and then down along the rest of the target; no
relative path with fewer components leads there. -/
theorem join_relativeTo (base target : Path) : ∃ front up down,
    Fork base.folded target.folded front up down ∧
      (target.isAbsolute = true ∨
          base.isAbsolute = false ∧ target.isAbsolute = false ∧ .parent ∉ up →
        (base.join (base.relativeTo target)).folded = target.folded) ∧
      (base.isAbsolute = target.isAbsolute →
        (base.relativeTo target).components = List.replicate up.length .parent ++ down ∧
          ∀ q : Path, q.isAbsolute = false → (base.join q).folded = target.folded →
            (base.relativeTo target).components.length ≤ q.components.length) := by
  obtain ⟨front, up, down, fork, way⟩ := exists_fork base.folded target.folded
  refine ⟨front, up, down, fork, ?_, fun alike => ?_⟩
  · rintro (absolute | ⟨from_nowhere, relative, no_parent⟩)
    · cases kind : base.isAbsolute with
      | false => exact folded_join_root kind absolute
      | true =>
        exact folded_join_of_fork fork way (fork.root_not_mem fun _ => kind)
          (fork.names_only kind absolute).1
    · exact folded_join_of_fork fork way
        (fork.root_not_mem (from_nowhere.trans relative.symm).trans)
        (fork.names_of_relative from_nowhere no_parent)
  · have whole := components_relativeTo fork way (fork.root_not_mem alike.trans)
    refine ⟨whole, fun q relative reaches => ?_⟩
    rw [whole, ← way]
    exact length_le_of_folded_join relative reaches

example : (ofString "/a/b").relativeTo (ofString "/c/d.css") = ofString "../../c/d.css" := by decide

end HotReload.Path
