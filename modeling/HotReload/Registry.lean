import HotReload.Module

/-! The module registry: one record per source path, the last one inserted.
Paths count as equal when their components are. A replaced record keeps its place, so the
entries stand in the order in which their paths first appeared. -/
namespace HotReload

structure Registry where
  entries : List Module
  distinct : entries.Pairwise fun a b => a.source.same b.source = false

namespace Registry

def empty : Registry := ⟨[], .nil⟩

/-- Puts `m` in the place of the entry with its path, which is handed back, or else at the
end. -/
def put (m : Module) : List Module → Option Module × List Module
  | [] => (none, [m])
  | e :: es =>
    if e.source.same m.source then (some e, m :: es)
    else ((put m es).1, e :: (put m es).2)

theorem mem_put {m x : Module} {es : List Module} (h : x ∈ (put m es).2) :
    x = m ∨ x ∈ es := by
  induction es with
  | nil => simpa [put] using h
  | cons e es ih =>
    unfold put at h
    split at h
    · rcases List.mem_cons.mp h with h | h
      · exact .inl h
      · exact .inr (List.mem_cons_of_mem _ h)
    · rcases List.mem_cons.mp h with h | h
      · exact .inr (h ▸ List.mem_cons_self)
      · exact (ih h).imp_right (List.mem_cons_of_mem _)

theorem pairwise_put (m : Module) {es : List Module}
    (distinct : es.Pairwise fun a b => a.source.same b.source = false) :
    (put m es).2.Pairwise fun a b => a.source.same b.source = false := by
  induction es with
  | nil => simp [put]
  | cons e es ih =>
    obtain ⟨head, tail⟩ := List.pairwise_cons.mp distinct
    unfold put
    split
    · rename_i hit
      have equal : e.source.components = m.source.components := by
        simpa [Path.same] using hit
      refine List.pairwise_cons.mpr ⟨fun x hx => ?_, tail⟩
      have apart := head x hx
      simp only [Path.same, equal] at apart
      exact apart
    · rename_i miss
      refine List.pairwise_cons.mpr ⟨fun x hx => ?_, ih tail⟩
      rcases mem_put hx with rfl | hx
      · simpa using miss
      · exact head x hx

def get? (r : Registry) (p : Path) : Option Module := r.entries.find? (·.source.same p)

def insert (r : Registry) (m : Module) : Option Module × Registry :=
  ((put m r.entries).1, ⟨(put m r.entries).2, pairwise_put m r.distinct⟩)

def ofList (ms : List Module) : Registry := ms.foldl (fun r m => (r.insert m).2) empty

def size (r : Registry) : Nat := r.entries.length

def components (r : Registry) : List (Module × String) :=
  r.entries.filterMap fun m => m.tag.map fun t => (m, t)

end Registry
end HotReload
