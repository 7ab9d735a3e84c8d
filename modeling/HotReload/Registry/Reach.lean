import HotReload.Registry

/-! Reachability along imports.
`walk` searches depth first with an explicit stack. A path is marked as seen when it is
first met, so each record is expanded at most once and cyclic imports do no harm. Imports
without a record are dead ends. `Reaches` says the same as a relation. -/
namespace HotReload.Registry

def Imports (r : Registry) (a b : Module) : Prop :=
  ∃ p ∈ a.imports, r.get? p = some b

/-- `b` is met from `a` after zero or more registered imports. -/
inductive Reaches (r : Registry) : Module → Module → Prop where
  | here (a : Module) : Reaches r a a
  | step {a b c : Module} (first : r.Imports a b) (more : Reaches r b c) : Reaches r a c

def isSeen (seen : List Path) (p : Path) : Bool := seen.any (·.same p)

def unseenCount (r : Registry) (seen : List Path) : Nat :=
  r.entries.countP fun m => !isSeen seen m.source

/-- Marks the imports of one module and stacks the records of those not met before. The
first import ends on top of the stack. -/
def stackImports (r : Registry) : List Path → List Path → List Module →
    List Path × List Module
  | [], seen, stack => (seen, stack)
  | p :: ps, seen, stack =>
    let (seen, stack) := stackImports r ps seen stack
    if isSeen seen p then (seen, stack)
    else
      match r.get? p with
      | some m => (p :: seen, m :: stack)
      | none => (p :: seen, stack)

theorem isSeen_cons (p q : Path) (seen : List Path) :
    isSeen (p :: seen) q = (p.same q || isSeen seen q) := rfl

theorem unseen_of_cons {p q : Path} {seen : List Path} (h : (!isSeen (p :: seen) q) = true) :
    (!isSeen seen q) = true := by
  simp only [isSeen_cons, Bool.not_or, Bool.and_eq_true] at h
  exact h.2

theorem unseenCount_cons_le (r : Registry) (p : Path) (seen : List Path) :
    r.unseenCount (p :: seen) ≤ r.unseenCount seen :=
  List.countP_mono_left fun _ _ => unseen_of_cons

theorem unseenCount_cons_lt (r : Registry) {p : Path} {seen : List Path} {m : Module}
    (found : r.get? p = some m) (fresh : isSeen seen p = false) :
    r.unseenCount (p :: seen) < r.unseenCount seen := by
  have member := List.mem_of_find?_eq_some found
  have same : m.source.components = p.components := by
    simpa [Path.same] using List.find?_some found
  have seen_same : isSeen seen m.source = false := by
    simpa [isSeen, Path.same, same] using fresh
  unfold unseenCount
  generalize r.entries = es at member
  induction es with
  | nil => cases member
  | cons e es ih =>
    rw [List.countP_cons, List.countP_cons]
    rcases List.mem_cons.mp member with rfl | member
    · have gone : isSeen (p :: seen) m.source = true := by
        simp [isSeen_cons, Path.same, same]
      have shrinks : es.countP (fun e => !isSeen (p :: seen) e.source) ≤
          es.countP fun e => !isSeen seen e.source :=
        List.countP_mono_left fun _ _ => unseen_of_cons
      simp only [gone, seen_same, Bool.not_true, Bool.not_false, Bool.false_eq_true, if_false,
        if_true, Nat.add_zero]
      exact Nat.lt_succ_of_le shrinks
    · have keeps : (if (!isSeen (p :: seen) e.source) = true then 1 else 0) ≤
          if (!isSeen seen e.source) = true then 1 else 0 := by
        split
        · rename_i unseen
          exact Nat.le_of_eq (if_pos (unseen_of_cons unseen)).symm
        · exact Nat.zero_le _
      exact Nat.add_lt_add_of_lt_of_le (ih member) keeps

/-- Stacking a record uses up one that was not met. -/
theorem stackImports_measure (r : Registry) (ps seen : List Path) (stack : List Module) :
    r.unseenCount (stackImports r ps seen stack).1 + (stackImports r ps seen stack).2.length ≤
      r.unseenCount seen + stack.length := by
  induction ps with
  | nil => exact Nat.le_refl _
  | cons p ps ih =>
    simp only [stackImports]
    split
    · exact ih
    · rename_i fresh
      split
      · rename_i m found
        have less := unseenCount_cons_lt r found (by simpa using fresh)
        simp only [List.length_cons]
        omega
      · have less := unseenCount_cons_le r p (stackImports r ps seen stack).1
        dsimp only
        omega

/-- The course of a search: the records taken from the stack, in order, and whether one of
them is the file looked for. -/
structure Search where
  expanded : List Module
  found : Bool

/-- Takes records from the stack until one of them is `file` or none is left. -/
def walk (r : Registry) (file : Path) (seen : List Path) (stack : List Module) : Search :=
  match stack with
  | [] => ⟨[], false⟩
  | m :: rest =>
    if m.isFile file then ⟨[m], true⟩
    else
      let next := stackImports r m.imports seen rest
      let search := walk r file next.1 next.2
      ⟨m :: search.expanded, search.found⟩
termination_by r.unseenCount seen + stack.length
decreasing_by
  have := stackImports_measure r m.imports seen rest
  simp only [List.length_cons]
  omega

/-- A search that comes to an end, as the turns it takes: each turn takes one record from the
stack. -/
inductive Ends (r : Registry) (file : Path) : List Path → List Module → Search → Prop where
  | empty (seen : List Path) : Ends r file seen [] ⟨[], false⟩
  | hit {m : Module} (seen : List Path) (rest : List Module) (isFile : m.isFile file = true) :
      Ends r file seen (m :: rest) ⟨[m], true⟩
  | miss {m : Module} {seen : List Path} {rest : List Module} {more : Search}
      (other : m.isFile file = false)
      (goesOn : Ends r file (stackImports r m.imports seen rest).1
        (stackImports r m.imports seen rest).2 more) :
      Ends r file seen (m :: rest) ⟨m :: more.expanded, more.found⟩

def Apart (ms : List Module) : Prop :=
  ms.Pairwise fun a b => a.source.components ≠ b.source.components

def search (r : Registry) (m : Module) (file : Path) : Search := r.walk file [m.source] [m]

def dependsOn (r : Registry) (m : Module) (file : Path) : Bool := (r.search m file).found

end HotReload.Registry
