import HotReload.Proofs.PathComponents
import HotReload.Registry.Reach

/-! The search along imports finds a file exactly when a record that is this file can be
reached. The invariant of the search is that every record whose path was met is either still
stacked or expanded: it is not the file, and all its imports were met. -/
namespace HotReload.Registry

variable {r : Registry} {file : Path} {seen : List Path} {stack : List Module}

theorem isSeen_iff {p : Path} :
    isSeen seen p = true ↔ ∃ q ∈ seen, q.components = p.components := by
  simp [isSeen, Path.same_iff]

theorem get?_congr {p q : Path} (same : p.components = q.components) :
    r.get? p = r.get? q := by
  simp only [get?, Path.same, same]

theorem get?_source {m : Module} (member : m ∈ r.entries) : r.get? m.source = some m := by
  obtain ⟨entries, distinct⟩ := r
  simp only [get?] at member ⊢
  induction entries with
  | nil => cases member
  | cons e es ih =>
    obtain ⟨apart, tail⟩ := List.pairwise_cons.mp distinct
    rcases List.mem_cons.mp member with rfl | later
    · simp [Path.same]
    · rw [List.find?_cons_of_neg (by simp [apart m later])]
      exact ih tail later

/-- A record that is not the file and whose imports were all met. -/
def Expanded (file : Path) (seen : List Path) (m : Module) : Prop :=
  m.isFile file = false ∧ ∀ p ∈ m.imports, isSeen seen p = true

/-- Every record whose path was met is stacked or expanded. -/
def Frontier (r : Registry) (file : Path) (seen : List Path) (stack : List Module) : Prop :=
  ∀ p m, isSeen seen p = true → r.get? p = some m → m ∈ stack ∨ Expanded file seen m

theorem Expanded.mono {m : Module} {more : List Path} (done : Expanded file seen m)
    (grows : ∀ p, isSeen seen p = true → isSeen more p = true) : Expanded file more m :=
  ⟨done.1, fun p member => grows p (done.2 p member)⟩

theorem seen_stackImports (ps : List Path) {q : Path} :
    isSeen (stackImports r ps seen stack).1 q = true ↔
      isSeen seen q = true ∨ ∃ p ∈ ps, p.components = q.components := by
  induction ps with
  | nil => simp [stackImports]
  | cons p ps ih =>
    simp only [stackImports]
    split
    · rename_i known
      obtain ⟨s, member, same⟩ := isSeen_iff.mp known
      constructor
      · intro met
        rcases ih.mp met with old | ⟨x, mem, eq⟩
        · exact .inl old
        · exact .inr ⟨x, List.mem_cons_of_mem _ mem, eq⟩
      · rintro (met | ⟨x, mem, eq⟩)
        · exact ih.mpr (.inl met)
        · rcases List.mem_cons.mp mem with rfl | mem
          · exact isSeen_iff.mpr ⟨s, member, same.trans eq⟩
          · exact ih.mpr (.inr ⟨x, mem, eq⟩)
    · have step : isSeen (p :: (stackImports r ps seen stack).1) q = true ↔
          isSeen seen q = true ∨ ∃ x ∈ p :: ps, x.components = q.components := by
        rw [isSeen_cons, Bool.or_eq_true, ih, Path.same_iff]
        simp only [List.mem_cons, exists_eq_or_imp]
        exact or_left_comm
      split <;> exact step

theorem mem_stackImports_of_mem (ps : List Path) {m : Module} (member : m ∈ stack) :
    m ∈ (stackImports r ps seen stack).2 := by
  induction ps with
  | nil => exact member
  | cons p ps ih =>
    simp only [stackImports]
    split
    · exact ih
    · split
      · exact List.mem_cons_of_mem _ ih
      · exact ih

theorem mem_stackImports {ps : List Path} {m : Module}
    (member : m ∈ (stackImports r ps seen stack).2) :
    m ∈ stack ∨ ∃ p ∈ ps, r.get? p = some m := by
  induction ps with
  | nil => exact .inl member
  | cons p ps ih =>
    have later : m ∈ (stackImports r ps seen stack).2 →
        m ∈ stack ∨ ∃ x ∈ p :: ps, r.get? x = some m := fun h =>
      (ih h).imp_right fun ⟨x, mem, found⟩ => ⟨x, List.mem_cons_of_mem _ mem, found⟩
    simp only [stackImports] at member
    split at member
    · exact later member
    · split at member
      · rename_i found
        rcases List.mem_cons.mp member with rfl | member
        · exact .inr ⟨p, List.mem_cons_self, found⟩
        · exact later member
      · exact later member

/-- A record met now for the first time is stacked. -/
theorem mem_stackImports_of_new {ps : List Path} {q : Path} {m : Module}
    (met : isSeen (stackImports r ps seen stack).1 q = true) (found : r.get? q = some m) :
    isSeen seen q = true ∨ m ∈ (stackImports r ps seen stack).2 := by
  induction ps with
  | nil => exact .inl met
  | cons p ps ih =>
    simp only [stackImports] at met ⊢
    split at met
    · rename_i known
      simp only [known, if_true]
      exact ih met
    · rename_i fresh
      simp only [fresh]
      have here : p.components = q.components → r.get? p = some m := fun same =>
        (get?_congr same).trans found
      split at met <;> rename_i entry
      · rw [isSeen_cons, Bool.or_eq_true, Path.same_iff] at met
        rcases met with same | met
        · have := here same
          rw [entry] at this
          exact .inr (Option.some.inj this ▸ List.mem_cons_self)
        · exact (ih met).imp_right (List.mem_cons_of_mem _)
      · rw [isSeen_cons, Bool.or_eq_true, Path.same_iff] at met
        rcases met with same | met
        · have := here same
          rw [entry] at this
          cases this
        · exact ih met

/-- Expanding the top of the stack keeps the frontier. -/
theorem Frontier.step {m : Module} (frontier : r.Frontier file seen (m :: stack))
    (other : m.isFile file = false) :
    r.Frontier file (stackImports r m.imports seen stack).1
      (stackImports r m.imports seen stack).2 := by
  have grows : ∀ p, isSeen seen p = true →
      isSeen (stackImports r m.imports seen stack).1 p = true := fun p met =>
    (seen_stackImports m.imports).mpr (.inl met)
  have expanded : Expanded file (stackImports r m.imports seen stack).1 m :=
    ⟨other, fun p member => (seen_stackImports m.imports).mpr (.inr ⟨p, member, rfl⟩)⟩
  intro p b met found
  rcases mem_stackImports_of_new met found with old | stacked
  · rcases frontier p b old found with waiting | done
    · rcases List.mem_cons.mp waiting with rfl | waiting
      · exact .inr expanded
      · exact .inl (mem_stackImports_of_mem _ waiting)
    · exact .inr (done.mono grows)
  · exact .inl stacked

theorem walk_sound (found : (r.walk file seen stack).found = true) :
    ∃ a ∈ stack, ∃ b, r.Reaches a b ∧ b.isFile file = true := by
  fun_induction walk r file seen stack with
  | case1 seen => cases found
  | case2 seen m rest hit => exact ⟨m, List.mem_cons_self, m, .here m, hit⟩
  | case3 seen m rest miss next search ih =>
    obtain ⟨a, member, b, reached, isFile⟩ := ih found
    rcases mem_stackImports member with waiting | ⟨p, imported, entry⟩
    · exact ⟨a, List.mem_cons_of_mem _ waiting, b, reached, isFile⟩
    · exact ⟨m, List.mem_cons_self, b, .step ⟨p, imported, entry⟩ reached, isFile⟩

/-- A search that fails ends with every record it could meet expanded. -/
theorem walk_complete (lost : (r.walk file seen stack).found = false)
    (frontier : r.Frontier file seen stack) :
    ∃ all, r.Frontier file all [] ∧ ∀ p, isSeen seen p = true → isSeen all p = true := by
  fun_induction walk r file seen stack with
  | case1 seen => exact ⟨seen, frontier, fun _ met => met⟩
  | case2 seen m rest hit => cases lost
  | case3 seen m rest miss next search ih =>
    obtain ⟨all, closed, grows⟩ := ih lost (frontier.step (by simpa using miss))
    refine ⟨all, closed, fun p met => grows p ?_⟩
    exact (seen_stackImports m.imports).mpr (.inl met)

/-- What is reached from an expanded record is expanded once nothing is stacked. -/
theorem expanded_of_reaches {a b : Module} (closed : r.Frontier file seen [])
    (start : Expanded file seen a) (reached : r.Reaches a b) : Expanded file seen b := by
  induction reached with
  | here => exact start
  | step edge _ ih =>
    obtain ⟨p, imported, entry⟩ := edge
    rcases closed p _ (start.2 p imported) entry with waiting | done
    · cases waiting
    · exact ih done

theorem dependsOn_iff_reaches {m : Module} (member : m ∈ r.entries) :
    r.dependsOn m file = true ↔ ∃ b, r.Reaches m b ∧ b.isFile file = true := by
  constructor
  · intro found
    obtain ⟨a, stacked, b, reached, isFile⟩ := walk_sound found
    cases List.mem_singleton.mp stacked
    exact ⟨b, reached, isFile⟩
  · rintro ⟨b, reached, isFile⟩
    cases outcome : r.dependsOn m file with
    | true => rfl
    | false =>
      have start : r.Frontier file [m.source] [m] := by
        intro p a met found
        obtain ⟨q, mem, same⟩ := isSeen_iff.mp met
        cases List.mem_singleton.mp mem
        rw [← get?_congr same, get?_source member] at found
        exact .inl (Option.some.inj found ▸ List.mem_singleton_self _)
      obtain ⟨all, closed, grows⟩ := walk_complete outcome start
      have met : isSeen all m.source = true := grows _ (isSeen_iff.mpr ⟨_, by simp, rfl⟩)
      rcases closed m.source m met (get?_source member) with waiting | done
      · cases waiting
      · have other := (expanded_of_reaches closed done reached).1
        rw [isFile] at other
        cases other

end HotReload.Registry
