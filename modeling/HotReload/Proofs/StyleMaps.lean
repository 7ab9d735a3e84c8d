import HotReload.Proofs.RoundTrips
import Mathlib.Data.List.Induction

namespace HotReload.StyleMap

/-- The entries are the pairs without repeated keys: each key stands where it stood first, with
its last value. -/
structure Condenses (pairs entries : List (String × String)) : Prop where
  order : (entries.map Prod.fst).Pairwise fun k l =>
    (pairs.map Prod.fst).idxOf k < (pairs.map Prod.fst).idxOf l
  last : ∀ e, e ∈ entries ↔ (pairs.filter (·.1 == e.1)).getLast? = some e

variable {pairs es : List (String × String)} {tag style : String}

theorem entries_insert (m : StyleMap) :
    (m.insert tag style).entries = put tag style m.entries := rfl

theorem mem_put_iff (distinct : (es.map Prod.fst).Nodup) {e : String × String} :
    e ∈ put tag style es ↔ e = (tag, style) ∨ e ∈ es ∧ e.1 ≠ tag := by
  induction es with
  | nil => simp [put]
  | cons f es ih =>
    obtain ⟨new, later⟩ := List.nodup_cons.mp distinct
    rw [put]
    split
    · rename_i same
      have others : ∀ g ∈ es, g.1 ≠ tag := by
        rintro g listed rfl
        exact new (same ▸ List.mem_map_of_mem listed)
      grind
    · rename_i other
      rw [List.mem_cons, ih later]
      grind

theorem keys_put_of_mem (known : tag ∈ es.map Prod.fst) :
    (put tag style es).map Prod.fst = es.map Prod.fst := by
  induction es with
  | nil => cases known
  | cons e es ih =>
    rw [put]
    split
    · rename_i same
      rw [List.map_cons, List.map_cons, same]
    · rename_i other
      have later : tag ∈ es.map Prod.fst :=
        (List.mem_cons.mp known).resolve_left (Ne.symm other)
      rw [List.map_cons, List.map_cons, ih later]

theorem Condenses.mem_keys_iff (condenses : Condenses pairs es) {k : String} :
    k ∈ es.map Prod.fst ↔ k ∈ pairs.map Prod.fst := by
  constructor
  · intro listed
    obtain ⟨e, member, rfl⟩ := List.mem_map.mp listed
    have last := List.mem_of_getLast? ((condenses.last e).mp member)
    exact List.mem_map_of_mem (List.mem_filter.mp last).1
  · intro listed
    obtain ⟨p, member, rfl⟩ := List.mem_map.mp listed
    have some_left : pairs.filter (·.1 == p.1) ≠ [] :=
      List.ne_nil_of_mem (List.mem_filter.mpr ⟨member, BEq.rfl⟩)
    have last := List.getLast?_eq_some_getLast some_left
    generalize (pairs.filter (·.1 == p.1)).getLast some_left = e at last
    have same : e.1 = p.1 := by simpa using (List.mem_filter.mp (List.mem_of_getLast? last)).2
    rw [← same] at last
    exact same ▸ List.mem_map_of_mem ((condenses.last e).mpr last)

/-- One more pair changes the value of its key, or stands last. -/
theorem Condenses.insert {m : StyleMap} (condenses : Condenses pairs m.entries)
    (p : String × String) : Condenses (pairs ++ [p]) (m.insert p.1 p.2).entries where
  order := by
    have earlier : (m.entries.map Prod.fst).Pairwise fun k l =>
        ((pairs ++ [p]).map Prod.fst).idxOf k < ((pairs ++ [p]).map Prod.fst).idxOf l := by
      refine condenses.order.imp_of_mem ?_
      intro k l first second less
      rw [List.map_append, List.idxOf_append_of_mem (condenses.mem_keys_iff.mp first),
        List.idxOf_append_of_mem (condenses.mem_keys_iff.mp second)]
      exact less
    by_cases known : p.1 ∈ m.entries.map Prod.fst
    · rw [entries_insert, keys_put_of_mem known]
      exact earlier
    · have keys : (m.insert p.1 p.2).entries.map Prod.fst = m.entries.map Prod.fst ++ [p.1] := by
        rw [entries_insert, put_of_not_mem known, List.map_append]
        rfl
      rw [keys]
      refine List.pairwise_append.mpr ⟨earlier, List.pairwise_singleton _ _, ?_⟩
      intro k listed l one
      obtain rfl := List.mem_singleton.mp one
      have before := condenses.mem_keys_iff.mp listed
      have new := mt condenses.mem_keys_iff.mpr known
      rw [List.map_append, List.idxOf_append_of_mem before, List.idxOf_append_of_notMem new]
      exact Nat.lt_of_lt_of_le (List.idxOf_lt_length_of_mem before) (Nat.le_add_right _ _)
  last := by
    intro e
    rw [entries_insert, mem_put_iff m.nodup, condenses.last, List.filter_append]
    by_cases same : p.1 = e.1
    · have here : [p].filter (·.1 == e.1) = [p] := by simp [same]
      rw [here, List.getLast?_concat, Option.some.injEq]
      grind
    · have elsewhere : [p].filter (·.1 == e.1) = [] := by simp [same]
      rw [elsewhere, List.append_nil]
      grind

theorem ofPairs_append (pairs : List (String × String)) (p : String × String) :
    ofPairs (pairs ++ [p]) = (ofPairs pairs).insert p.1 p.2 := by
  rw [ofPairs, List.foldl_append]
  rfl

theorem condenses_ofPairs (pairs : List (String × String)) :
    Condenses pairs (ofPairs pairs).entries := by
  -- pairs are inserted from the first on, so the last one is taken off
  induction pairs using List.reverseRecOn with
  | nil => exact ⟨.nil, by simp [ofPairs, empty]⟩
  | append_singleton pairs p ih =>
    rw [ofPairs_append]
    exact ih.insert p

end HotReload.StyleMap
