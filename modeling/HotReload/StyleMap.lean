namespace HotReload

structure StyleMap where
  entries : List (String × String)
  nodup : (entries.map Prod.fst).Nodup
deriving DecidableEq, Repr

namespace StyleMap

def empty : StyleMap := ⟨[], .nil⟩

def put (tag style : String) : List (String × String) → List (String × String)
  | [] => [(tag, style)]
  | e :: es => if e.1 = tag then (tag, style) :: es else e :: put tag style es

theorem mem_keys_put {tag style x : String} {es : List (String × String)} :
    x ∈ (put tag style es).map Prod.fst ↔ x = tag ∨ x ∈ es.map Prod.fst := by
  induction es with
  | nil => simp [put]
  | cons e es ih =>
    unfold put
    split
    · rename_i hit
      simp [hit]
    · simp only [List.map_cons, List.mem_cons, ih]
      grind

theorem nodup_put (tag style : String) {es : List (String × String)}
    (nodup : (es.map Prod.fst).Nodup) : ((put tag style es).map Prod.fst).Nodup := by
  induction es with
  | nil => simp [put]
  | cons e es ih =>
    obtain ⟨head, tail⟩ := List.nodup_cons.mp nodup
    unfold put
    split
    · rename_i hit
      simpa [← hit] using nodup
    · rename_i miss
      refine List.nodup_cons.mpr ⟨fun member => ?_, ih tail⟩
      rcases mem_keys_put.mp member with same | member
      · exact miss same
      · exact head member

def insert (m : StyleMap) (tag style : String) : StyleMap :=
  ⟨put tag style m.entries, nodup_put tag style m.nodup⟩

/-- A repeated tag keeps its first place and gets its last style. -/
def ofPairs (pairs : List (String × String)) : StyleMap :=
  pairs.foldl (fun m e => m.insert e.1 e.2) empty

end StyleMap
end HotReload
