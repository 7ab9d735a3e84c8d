import HotReload.Path.Folding
import HotReload.Proofs.PathComponents

/-! What folding leaves of a path, and how a joined path is folded.
The components that were kept form a stack with the last one on top. Put together again they are
folded into themselves. A joined path is folded by going on from the stack of the first one. -/
namespace HotReload.Path

variable {cs done front back names : List Component} {p q : Path}

def Component.IsName (c : Component) : Prop := ∃ n, c = .name n

theorem parent_not_mem_of_names (names_only : ∀ c ∈ names, c.IsName) : .parent ∉ names := by
  intro member
  obtain ⟨n, impossible⟩ := names_only .parent member
  cases impossible

/-- Each component of the stack is kept when it comes after those below it. -/
inductive Settled : List Component → Prop where
  | nil : Settled []
  | cons {c : Component} {below : List Component} (kept : foldStep below c = c :: below)
      (settled : Settled below) : Settled (c :: below)

theorem settled_foldStep (settled : Settled done) (c : Component) : Settled (foldStep done c) := by
  cases c with
  | current => exact settled
  | root => exact .cons rfl settled
  | name n => exact .cons rfl settled
  | parent =>
    cases settled with
    | nil => exact .cons rfl .nil
    | @cons top below kept settled =>
      cases top with
      | name n => exact settled
      | root => exact .cons kept settled
      | parent => exact .cons rfl (.cons kept settled)
      | current => exact absurd (congrArg List.length kept) (by simp [foldStep])

theorem settled_foldl (settled : Settled done) (cs : List Component) :
    Settled (cs.foldl foldStep done) := by
  induction cs generalizing done with
  | nil => exact settled
  | cons c cs ih => exact ih (settled_foldStep settled c)

/-- The upper part of a stack comes about again when it is put on the lower one. -/
theorem foldl_of_settled (settled : Settled (front ++ back)) :
    front.reverse.foldl foldStep back = front ++ back := by
  induction front with
  | nil => rfl
  | cons c front ih =>
    cases settled with
    | cons kept settled =>
      rw [List.reverse_cons, List.foldl_append, ih settled]
      exact kept

def stack (p : Path) : List Component := p.components.foldl foldStep []

theorem reverse_stack (p : Path) : p.stack.reverse = p.folded := rfl

theorem reverse_folded (p : Path) : p.folded.reverse = p.stack := by
  rw [← reverse_stack, List.reverse_reverse]

theorem settled_stack (p : Path) : Settled p.stack := settled_foldl .nil p.components

theorem foldComponents_of_settled (settled : Settled cs.reverse) : foldComponents cs = cs := by
  have kept : Settled (cs.reverse ++ []) := (List.append_nil _).symm ▸ settled
  have again := foldl_of_settled kept
  rw [List.append_nil, List.reverse_reverse] at again
  rw [foldComponents, again, List.reverse_reverse]

theorem foldComponents_folded (p : Path) : foldComponents p.folded = p.folded := by
  apply foldComponents_of_settled
  rw [reverse_folded]
  exact settled_stack p

theorem mem_foldStep {c d : Component} (member : c ∈ foldStep done d) : c ∈ d :: done := by
  unfold foldStep at member
  split at member
  · exact List.mem_cons_of_mem _ member
  · split at member
    · exact List.mem_cons_of_mem _ (List.mem_cons_of_mem _ member)
    · exact List.mem_cons_of_mem _ member
    · exact member
  · exact member

theorem mem_foldl {c : Component} (member : c ∈ cs.foldl foldStep done) : c ∈ done ∨ c ∈ cs := by
  induction cs generalizing done with
  | nil => exact .inl member
  | cons d cs ih =>
    rcases ih member with front | later
    · rcases List.mem_cons.mp (mem_foldStep front) with rfl | before
      · exact .inr List.mem_cons_self
      · exact .inl before
    · exact .inr (List.mem_cons_of_mem d later)

theorem mem_components_of_folded {c : Component} (member : c ∈ p.folded) : c ∈ p.components :=
  (mem_foldl (List.mem_reverse.mp member)).resolve_left List.not_mem_nil

theorem current_not_mem_of_settled (settled : Settled done) : .current ∉ done := by
  induction settled with
  | nil => exact List.not_mem_nil
  | @cons c below kept _ ih =>
    refine List.not_mem_cons_of_ne_of_not_mem ?_ ih
    rintro rfl
    exact absurd (congrArg List.length kept) (by simp [foldStep])

theorem current_not_mem_folded : .current ∉ p.folded := by
  rw [← reverse_stack, List.mem_reverse]
  exact current_not_mem_of_settled (settled_stack p)

theorem foldl_parents (names_only : ∀ c ∈ names, c.IsName) (below : List Component) :
    (List.replicate names.length Component.parent).foldl foldStep (names ++ below) = below := by
  induction names with
  | nil => rfl
  | cons c names ih =>
    obtain ⟨⟨n, rfl⟩, others⟩ := List.forall_mem_cons.mp names_only
    exact ih others

/-- Names are stacked on what `..` leaves where there are none: the root, or more and more `..`. -/
theorem foldl_above (base : Nat → List Component)
    (up : ∀ k, foldStep (base k) .parent = base (k + 1)) (inner : ∀ c ∈ cs, c ≠ .root)
    (names_only : ∀ c ∈ names, c.IsName) (k : Nat) :
    ∃ ns j, (∀ c ∈ ns, c.IsName) ∧ cs.foldl foldStep (names ++ base k) = ns ++ base j := by
  induction cs generalizing names k with
  | nil => exact ⟨names, k, names_only, rfl⟩
  | cons c cs ih =>
    obtain ⟨not_root, later⟩ := List.forall_mem_cons.mp inner
    rw [List.foldl_cons]
    cases c with
    | root => exact absurd rfl not_root
    | current => exact ih later names_only k
    | name n => exact ih later (List.forall_mem_cons.mpr ⟨⟨n, rfl⟩, names_only⟩) k
    | parent =>
      cases names with
      | nil =>
        rw [List.nil_append, up]
        exact ih later (List.forall_mem_nil _) (k + 1)
      | cons d names =>
        obtain ⟨⟨n, rfl⟩, others⟩ := List.forall_mem_cons.mp names_only
        exact ih later others k

theorem components_of_absolute (absolute : p.isAbsolute = true) :
    p.components = .root :: p.behindLead := by
  rw [components, lead_eq_root_iff.mpr absolute]
  rfl

theorem components_of_relative (relative : p.isAbsolute = false) :
    p.components = p.behindLead ∨ p.components = .current :: p.behindLead := by
  have not_root := mt lead_eq_root_iff.mp (Bool.eq_false_iff.mp relative)
  cases lead : p.split.1 with
  | root => exact absurd lead not_root
  | current => exact .inr (by rw [components, lead]; rfl)
  | nothing => exact .inl (by rw [components, lead]; rfl)

theorem root_mem_components_iff : .root ∈ p.components ↔ p.isAbsolute = true := by
  cases absolute : p.isAbsolute with
  | true =>
    rw [components_of_absolute absolute]
    exact iff_of_true List.mem_cons_self rfl
  | false =>
    have behind : Component.root ∉ p.behindLead := fun member => (mem_behindLead member).1 rfl
    rcases components_of_relative absolute with same | same <;> simp [same, behind]

theorem folded_of_absolute (absolute : p.isAbsolute = true) :
    ∃ ns, (∀ c ∈ ns, c.IsName) ∧ p.folded = .root :: ns := by
  obtain ⟨ns, -, names_only, stacked⟩ := foldl_above (fun _ => [.root]) (fun _ => rfl)
    (fun c member => (mem_behindLead (p := p) member).1) (List.forall_mem_nil _) 0
  refine ⟨ns.reverse, fun c member => names_only c (List.mem_reverse.mp member), ?_⟩
  have whole : p.stack = ns ++ [.root] := by
    rw [stack, components_of_absolute absolute]
    exact stacked
  rw [← reverse_stack, whole, List.reverse_append]
  rfl

theorem folded_of_relative (relative : p.isAbsolute = false) :
    ∃ k ns, (∀ c ∈ ns, c.IsName) ∧ p.folded = List.replicate k .parent ++ ns := by
  have inner : ∀ c ∈ p.components, c ≠ .root := by
    rintro c member rfl
    rw [root_mem_components_iff.mp member] at relative
    cases relative
  obtain ⟨ns, k, names_only, stacked⟩ := foldl_above (fun k => List.replicate k .parent)
    (fun k => by cases k <;> rfl) inner (List.forall_mem_nil _) 0
  refine ⟨k, ns.reverse, fun c member => names_only c (List.mem_reverse.mp member), ?_⟩
  have whole : p.stack = ns ++ List.replicate k .parent := stacked
  rw [← reverse_stack, whole, List.reverse_append, List.reverse_replicate]

theorem stack_join (relative : q.isAbsolute = false) :
    (p.join q).stack = q.components.foldl foldStep p.stack := by
  by_cases empty : p.bytes = []
  · have nothing : p.stack = [] := by
      obtain ⟨bytes⟩ := p
      obtain rfl : bytes = [] := empty
      rfl
    rw [join_empty empty, nothing]
    rfl
  · obtain ⟨lead, rest⟩ := join_of_relative empty relative
    have whole : (p.join q).components = p.components ++ q.behindLead := by
      show (p.join q).split.1.components ++ (p.join q).behindLead = _
      rw [lead, rest, ← List.append_assoc]
      rfl
    rw [stack, whole, List.foldl_append]
    rcases components_of_relative relative with same | same <;> rw [same] <;> rfl

end HotReload.Path
