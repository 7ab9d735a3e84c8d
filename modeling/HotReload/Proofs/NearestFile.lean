import HotReload.Config.Loading
import HotReload.Proofs.Parents

namespace HotReload.Config

variable {isPresent : Path → Bool} {name start dir place : Path}

/-- The search from a directory upwards: the places that are looked at, and what is found. -/
inductive Looks (isPresent : Path → Bool) (name : Path) :
    Path → List Path → Option Path → Prop where
  | found {dir : Path} (present : isPresent (dir.join name) = true) :
      Looks isPresent name dir [dir.join name] (some (dir.join name))
  | further {dir up : Path} {looked : List Path} {result : Option Path}
      (absent : isPresent (dir.join name) = false) (above : dir.parent = some up)
      (rest : Looks isPresent name up looked result) :
      Looks isPresent name dir (dir.join name :: looked) result
  | nowhere {dir : Path} (absent : isPresent (dir.join name) = false) (top : dir.parent = none) :
      Looks isPresent name dir [dir.join name] none

theorem candidates_of_absolute (absolute : name.isAbsolute = true) (start : Path) :
    candidates name start = [name] := if_pos absolute

theorem candidates_of_relative (relative : name.isAbsolute = false) (start : Path) :
    candidates name start = start.ancestors.map (·.join name) :=
  if_neg (Bool.eq_false_iff.mp relative)

theorem getElem?_candidates (relative : name.isAbsolute = false) (start : Path) (k : Nat) :
    (candidates name start)[k]? = (start.above k).map (·.join name) := by
  rw [candidates_of_relative relative, List.getElem?_map, Path.getElem?_ancestors]

theorem getElem?_candidates_eq_some_iff {k : Nat} (relative : name.isAbsolute = false) :
    (candidates name start)[k]? = some place ↔
      ∃ dir, start.above k = some dir ∧ dir.join name = place := by
  rw [getElem?_candidates relative, Option.map_eq_some_iff]

theorem candidates_of_top (relative : name.isAbsolute = false) (top : dir.parent = none) :
    candidates name dir = [dir.join name] := by
  apply List.ext_getElem?
  intro k
  rw [getElem?_candidates relative]
  cases k <;> simp [Path.above, top]

theorem candidates_of_parent {up : Path} (relative : name.isAbsolute = false)
    (above : dir.parent = some up) :
    candidates name dir = dir.join name :: candidates name up := by
  apply List.ext_getElem?
  intro k
  rw [getElem?_candidates relative]
  cases k <;> simp [Path.above, above, getElem?_candidates relative]

theorem exists_candidates (relative : name.isAbsolute = false) (dir : Path) :
    ∃ more, candidates name dir = dir.join name :: more := by
  rw [candidates_of_relative relative, Path.ancestors]
  exact ⟨_, List.map_cons⟩

/-- The search ends, after a look at no more places than there are directories upwards. -/
theorem looks_find? (isPresent : Path → Bool) (relative : name.isAbsolute = false) (dir : Path) :
    ∃ looked, Looks isPresent name dir looked (find? isPresent name dir) ∧
      looked <+: candidates name dir ∧ looked.length ≤ dir.height := by
  induction dir using Path.ancestors.induct with
  | case1 dir ih =>
    have some_left : 0 < dir.height := (dir.above_isSome_iff 0).mp rfl
    cases here : isPresent (dir.join name) with
    | true =>
      obtain ⟨more, whole⟩ := exists_candidates relative dir
      refine ⟨[dir.join name], ?_, ⟨more, whole.symm⟩, some_left⟩
      rw [find?, whole, List.find?_cons_of_pos here]
      exact .found here
    | false =>
      have missed : ¬ isPresent (dir.join name) = true := Bool.eq_false_iff.mp here
      cases up : dir.parent with
      | none =>
        have whole := candidates_of_top relative up
        refine ⟨[dir.join name], ?_, ⟨[], whole.symm⟩, some_left⟩
        rw [find?, whole, List.find?_cons_of_neg missed]
        exact .nowhere here up
      | some above =>
        have whole := candidates_of_parent relative up
        obtain ⟨looked, rest, front, bound⟩ := ih above up
        refine ⟨dir.join name :: looked, ?_, ?_, ?_⟩
        · rw [find?, whole, List.find?_cons_of_neg missed]
          exact .further here up rest
        · rw [whole]
          exact List.cons_prefix_cons.mpr ⟨rfl, front⟩
        · rw [List.length_cons, Path.height_of_parent up]
          omega

theorem find?_eq_some_iff (relative : name.isAbsolute = false) :
    find? isPresent name start = some place ↔
      ∃ k dir, start.above k = some dir ∧ place = dir.join name ∧ isPresent place = true ∧
        ∀ j < k, ∀ nearer, start.above j = some nearer →
          isPresent (nearer.join name) = false := by
  rw [find?, List.find?_eq_some_iff_getElem]
  constructor
  · intro found
    obtain ⟨present, k, bound, here, absent⟩ := found
    have there := List.getElem?_eq_some_iff.mpr ⟨bound, here⟩
    obtain ⟨dir, reached, same⟩ := (getElem?_candidates_eq_some_iff relative).mp there
    refine ⟨k, dir, reached, same.symm, present, ?_⟩
    intro j before nearer passed
    have listed := (getElem?_candidates_eq_some_iff relative).mpr ⟨nearer, passed, rfl⟩
    obtain ⟨_, at_j⟩ := List.getElem?_eq_some_iff.mp listed
    simpa [at_j] using absent j before
  · intro nearest
    obtain ⟨k, dir, reached, rfl, present, absent⟩ := nearest
    have there := (getElem?_candidates_eq_some_iff relative).mpr ⟨dir, reached, rfl⟩
    obtain ⟨bound, here⟩ := List.getElem?_eq_some_iff.mp there
    refine ⟨present, k, bound, here, ?_⟩
    intro j before
    have listed := List.getElem?_eq_getElem (l := candidates name start) (i := j) (by omega)
    obtain ⟨nearer, passed, same⟩ := (getElem?_candidates_eq_some_iff relative).mp listed
    simp [← same, absent j before nearer passed]

theorem find?_eq_none_iff (relative : name.isAbsolute = false) :
    find? isPresent name start = none ↔
      ∀ k dir, start.above k = some dir → isPresent (dir.join name) = false := by
  rw [find?, List.find?_eq_none]
  constructor
  · intro absent k dir reached
    have there := (getElem?_candidates_eq_some_iff relative).mpr ⟨dir, reached, rfl⟩
    simpa using absent _ (List.mem_of_getElem? there)
  · intro absent place listed
    obtain ⟨k, there⟩ := List.mem_iff_getElem?.mp listed
    obtain ⟨dir, reached, rfl⟩ := (getElem?_candidates_eq_some_iff relative).mp there
    simp [absent k dir reached]

theorem find?_of_absolute (absolute : name.isAbsolute = true) :
    find? isPresent name start = some place ↔ place = name ∧ isPresent name = true := by
  rw [find?, candidates_of_absolute absolute]
  cases present : isPresent name <;> simp [present, eq_comm]

/-- A file with an absolute name is found exactly if it is there, and no other place counts. With
a relative name the file is found in the nearest directory, from the given one upwards, that has
it; each directory in between was looked at, and all of them if there is no such file. The
directories upwards are as many as the path is high, and each lacks one more component. -/
theorem nearest_file (isPresent : Path → Bool) (name start : Path) :
    (name.isAbsolute = true → candidates name start = [name] ∧
      ∀ place, find? isPresent name start = some place ↔ place = name ∧ isPresent name = true) ∧
    (name.isAbsolute = false →
      (∃ looked, Looks isPresent name start looked (find? isPresent name start) ∧
        looked <+: candidates name start ∧ looked.length ≤ start.height) ∧
      (∀ place, find? isPresent name start = some place ↔
        ∃ k dir, start.above k = some dir ∧ place = dir.join name ∧ isPresent place = true ∧
          ∀ j < k, ∀ nearer, start.above j = some nearer →
            isPresent (nearer.join name) = false) ∧
      (find? isPresent name start = none ↔
        ∀ k dir, start.above k = some dir → isPresent (dir.join name) = false)) ∧
    ∀ k, ((start.above k).isSome = true ↔ k < start.height) ∧
      ∀ dir, start.above k = some dir →
        dir.components = start.components.take (start.components.length - k) := by
  refine ⟨?_, ?_, ?_⟩
  · intro absolute
    exact ⟨candidates_of_absolute absolute start, fun place => find?_of_absolute absolute⟩
  · intro relative
    exact ⟨looks_find? isPresent relative start, fun place => find?_eq_some_iff relative,
      find?_eq_none_iff relative⟩
  · intro k
    exact ⟨start.above_isSome_iff k, fun dir => Path.components_of_above⟩

end HotReload.Config
