import HotReload.Proofs.Reachability

namespace HotReload.Registry

variable {r : Registry}

theorem find?_put (m : Module) (p : Path) (es : List Module) :
    (put m es).2.find? (·.source.same p) =
      if m.source.same p then some m else es.find? (·.source.same p) := by
  induction es with
  | nil =>
    rw [put, List.find?_cons]
    cases m.source.same p <;> rfl
  | cons e es ih =>
    rw [put]
    split
    · rename_i replaced
      have one : e.source.same p = m.source.same p := by
        rw [Path.same, Path.same, Path.same_iff.mp replaced]
      rw [List.find?_cons, List.find?_cons, one]
      cases m.source.same p <;> rfl
    · rename_i other
      rw [List.find?_cons, List.find?_cons, ih]
      cases here : e.source.same p with
      | false => rfl
      | true =>
        have apart : m.source.same p = false := by
          rw [Bool.eq_false_iff]
          intro both
          apply other
          rw [Path.same_iff, Path.same_iff.mp here, Path.same_iff.mp both]
        rw [apart]
        rfl

theorem get?_insert (m : Module) (p : Path) :
    (r.insert m).2.get? p = if m.source.same p then some m else r.get? p :=
  find?_put m p r.entries

/-- Records inserted into a registry hide those it had before. -/
theorem get?_foldl_insert (ms : List Module) (p : Path) :
    (ms.foldl (fun r m => (r.insert m).2) r).get? p =
      (ms.filter (·.source.same p)).getLast?.or (r.get? p) := by
  induction ms generalizing r with
  | nil => rfl
  | cons m ms ih =>
    rw [List.foldl_cons, ih, get?_insert, List.filter_cons]
    split
    · rw [List.getLast?_cons]
      cases (ms.filter (·.source.same p)).getLast? <;> rfl
    · rfl

theorem get?_ofList (ms : List Module) (p : Path) :
    (ofList ms).get? p = (ms.filter (·.source.same p)).getLast? := by
  rw [ofList, get?_foldl_insert]
  exact Option.or_none

theorem mem_entries_iff {m : Module} : m ∈ r.entries ↔ r.get? m.source = some m := by
  constructor
  · exact get?_source
  · exact List.mem_of_find?_eq_some

end HotReload.Registry
