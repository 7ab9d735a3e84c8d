import HotReload.Proofs.Impact
import Mathlib.Data.List.Perm.Subperm

/-! How many turns a search takes. The invariant is that the stacked records are different
entries whose paths were met. So a record that is taken from the stack was never taken before,
and there are no more turns than entries. -/
namespace HotReload.Registry

variable {r : Registry} {file : Path} {seen : List Path} {stack : List Module}

theorem entry_of_get? {p : Path} {m : Module} (found : r.get? p = some m) :
    m ∈ r.entries ∧ m.source.components = p.components := by
  have same := List.find?_some found
  exact ⟨List.mem_of_find?_eq_some found, Path.same_iff.mp same⟩

theorem isSeen_congr {p q : Path} (same : p.components = q.components) :
    isSeen seen p = isSeen seen q := by
  simp only [isSeen, Path.same, same]

/-- The stacked records are different entries, and their paths were met. -/
structure Stacked (r : Registry) (seen : List Path) (stack : List Module) : Prop where
  entries : ∀ m ∈ stack, m ∈ r.entries
  met : ∀ m ∈ stack, isSeen seen m.source = true
  apart : Apart stack

theorem Stacked.tail {m : Module} (stacked : Stacked r seen (m :: stack)) :
    Stacked r seen stack where
  entries x waiting := stacked.entries x (List.mem_cons_of_mem m waiting)
  met x waiting := stacked.met x (List.mem_cons_of_mem m waiting)
  apart := (List.pairwise_cons.mp stacked.apart).2

theorem Stacked.mark (stacked : Stacked r seen stack) (p : Path) :
    Stacked r (p :: seen) stack where
  entries := stacked.entries
  met m waiting := by simp [isSeen_cons, stacked.met m waiting]
  apart := stacked.apart

/-- A record that is met for the first time is none of those that wait. -/
theorem Stacked.push {p : Path} {m : Module} (stacked : Stacked r seen stack)
    (fresh : isSeen seen p = false) (found : r.get? p = some m) :
    Stacked r (p :: seen) (m :: stack) := by
  obtain ⟨entry, source⟩ := entry_of_get? found
  have marked := stacked.mark p
  constructor
  · exact List.forall_mem_cons.mpr ⟨entry, marked.entries⟩
  · refine List.forall_mem_cons.mpr ⟨?_, marked.met⟩
    simp [isSeen_cons, Path.same_iff, source]
  · refine List.pairwise_cons.mpr ⟨?_, stacked.apart⟩
    intro x waiting same
    have known := stacked.met x waiting
    rw [isSeen_congr (same.symm.trans source), fresh] at known
    contradiction

theorem stacked_stackImports (stacked : Stacked r seen stack) (ps : List Path) :
    Stacked r (stackImports r ps seen stack).1 (stackImports r ps seen stack).2 := by
  induction ps with
  | nil => exact stacked
  | cons p ps ih =>
    simp only [stackImports]
    split
    · exact ih
    · rename_i fresh
      split
      · rename_i found
        exact ih.push (by simpa using fresh) found
      · exact ih.mark p

def IsAhead (seen : List Path) (stack : List Module) (m : Module) : Prop :=
  m ∈ stack ∨ isSeen seen m.source = false

theorem isAhead_of_stackImports {ps : List Path} {x : Module}
    (ahead : IsAhead (stackImports r ps seen stack).1 (stackImports r ps seen stack).2 x) :
    IsAhead seen stack x := by
  induction ps with
  | nil => exact ahead
  | cons p ps ih =>
    simp only [stackImports] at ahead
    split at ahead
    · exact ih ahead
    · rename_i fresh
      have unmet (q : Path) (later : isSeen (p :: (stackImports r ps seen stack).1) q = false) :
          isSeen (stackImports r ps seen stack).1 q = false := by
        simpa using unseen_of_cons (by simpa using later)
      split at ahead
      · rename_i found
        rcases ahead with waits | later
        · rcases List.mem_cons.mp waits with first | waits
          · subst first
            refine ih (.inr ?_)
            rw [isSeen_congr (entry_of_get? found).2]
            simpa using fresh
          · exact ih (.inl waits)
        · exact ih (.inr (unmet x.source later))
      · exact ih (ahead.imp_right (unmet x.source))

theorem isAhead_of_mem_expanded {x : Module}
    (taken : x ∈ (r.walk file seen stack).expanded) : IsAhead seen stack x := by
  fun_induction walk r file seen stack with
  | case1 seen => simp at taken
  | case2 seen m rest hit => exact .inl (List.mem_singleton.mp taken ▸ List.mem_cons_self)
  | case3 seen m rest miss next search ih =>
    rcases List.mem_cons.mp taken with first | later
    · exact .inl (first ▸ List.mem_cons_self)
    · exact (isAhead_of_stackImports (ih later)).imp_left (List.mem_cons_of_mem m)

theorem entry_of_mem_expanded (stacked : Stacked r seen stack) {x : Module}
    (taken : x ∈ (r.walk file seen stack).expanded) : x ∈ r.entries := by
  fun_induction walk r file seen stack with
  | case1 seen => simp at taken
  | case2 seen m rest hit =>
    exact List.mem_singleton.mp taken ▸ stacked.entries m List.mem_cons_self
  | case3 seen m rest miss next search ih =>
    rcases List.mem_cons.mp taken with first | later
    · exact first ▸ stacked.entries m List.mem_cons_self
    · exact ih (stacked_stackImports stacked.tail m.imports) later

/-- The record on top of the stack was met, so it cannot come back. -/
theorem apart_expanded (stacked : Stacked r seen stack) :
    Apart (r.walk file seen stack).expanded := by
  fun_induction walk r file seen stack with
  | case1 seen => exact .nil
  | case2 seen m rest hit => exact List.pairwise_singleton _ m
  | case3 seen m rest miss next search ih =>
    have later := ih (stacked_stackImports stacked.tail m.imports)
    refine List.pairwise_cons.mpr ⟨?_, later⟩
    intro x taken same
    rcases isAhead_of_stackImports (isAhead_of_mem_expanded taken) with waits | unmet
    · exact (List.pairwise_cons.mp stacked.apart).1 x waits same
    · have met := stacked.met m List.mem_cons_self
      rw [isSeen_congr same, unmet] at met
      contradiction

theorem length_le_size {ms : List Module} (apart : Apart ms) (entries : ∀ m ∈ ms, m ∈ r.entries) :
    ms.length ≤ r.size := by
  have nodup : ms.Nodup := List.Pairwise.imp (fun differ same => differ (by rw [same])) apart
  exact (List.subperm_of_subset nodup entries).length_le

theorem ends_walk (r : Registry) (file : Path) (seen : List Path) (stack : List Module) :
    r.Ends file seen stack (r.walk file seen stack) := by
  fun_induction walk r file seen stack with
  | case1 seen => exact .empty seen
  | case2 seen m rest hit => exact .hit seen rest hit
  | case3 seen m rest miss next search ih => exact .miss (by simpa using miss) ih

/-- From every entry the search comes to an end. It takes each record once at most, no more
records than there are, and finds the file exactly if a record that is the file is reached. -/
theorem search_decides (r : Registry) (file : Path) {m : Module} (member : m ∈ r.entries) :
    r.Ends file [m.source] [m] (r.search m file) ∧
      (r.search m file).expanded.length ≤ r.size ∧ Apart (r.search m file).expanded ∧
      (r.dependsOn m file = true ↔ ∃ b, r.Reaches m b ∧ b.IsAt file) := by
  have start : Stacked r [m.source] [m] := by
    constructor
    · simpa using member
    · simp [isSeen, Path.same_iff]
    · exact List.pairwise_singleton _ m
  have apart : Apart (r.search m file).expanded := apart_expanded start
  have entries : ∀ x ∈ (r.search m file).expanded, x ∈ r.entries := fun x =>
    entry_of_mem_expanded start
  refine ⟨ends_walk r file _ _, length_le_size apart entries, apart, ?_⟩
  simp only [dependsOn_iff_reaches member, Module.isFile_iff]

/-- Two modules that import each other, one of them under another spelling, and a file without
a record. -/
def ringPage : Module :=
  ⟨.ofString "x/a.tsx", none, [.ofString "x/b.ts", .ofString "x/gone.ts"], some "my-a"⟩

def ringPart : Module :=
  ⟨.ofString "x/b.ts", some (.ofString "x/b.js"), [.ofString "x//a.tsx"], none⟩

theorem search_decides_ring :
    ringPage ∈ (ofList [ringPage, ringPart]).entries ∧
      ((ofList [ringPage, ringPart]).search ringPage (.ofString "x/c.ts")).expanded.length ≤ 2 ∧
      (ofList [ringPage, ringPart]).dependsOn ringPage (.ofString "x/./b.js") = true := by
  have member : ringPage ∈ (ofList [ringPage, ringPart]).entries := by decide
  have reached : (ofList [ringPage, ringPart]).Reaches ringPage ringPart :=
    .step ⟨.ofString "x/b.ts", by decide, by decide⟩ (.here ringPart)
  have compiled : ringPart.IsAt (.ofString "x/./b.js") :=
    .inr ⟨.ofString "x/b.js", rfl, by decide⟩
  obtain ⟨-, short, -, -⟩ := search_decides _ (.ofString "x/c.ts") member
  obtain ⟨-, -, -, decides⟩ := search_decides _ (.ofString "x/./b.js") member
  exact ⟨member, short, decides.mpr ⟨ringPart, reached, compiled⟩⟩

end HotReload.Registry
