import HotReload.Json.Grammar
import HotReload.Proofs.CompactText

namespace HotReload.Json

theorem spaced_space (s : List Char) : Spaced (' ' :: s) s := by
  refine ⟨[' '], ?_, rfl⟩
  intro c member
  obtain rfl := List.mem_singleton.mp member
  rfl

theorem spaced_newLine (depth : Nat) (s : List Char) : Spaced (newLine depth ++ s) s := by
  refine ⟨newLine depth, ?_, rfl⟩
  intro c member
  rcases List.mem_cons.mp member with rfl | blank
  · rfl
  · obtain rfl := List.eq_of_mem_replicate blank
    rfl

mutual

theorem written_compact : ∀ (v : Value) (rest : List Char), Written (v.compact ++ rest) v rest
  | .null, _ => .null
  | .bool true, _ => .true
  | .bool false, _ => .false
  | .string s, rest => by
    rw [Value.compact, quoted_append]
    exact .string (spells_quoted s rest)
  | .array items, rest => by
    rw [Value.compact, List.cons_append]
    exact .array (items_compact items rest)
  | .object members, rest => by
    rw [Value.compact, List.cons_append]
    exact .object (members_compact members rest)

theorem items_compact : ∀ (vs : List Value) (rest : List Char),
    Items (compactItems vs ++ rest) vs rest
  | [], rest => .none (spaced_self _)
  | v :: r, rest => by
    rw [compactItems_cons, List.append_assoc]
    exact .some (spaced_self _) (written_compact v _) (further_items_compact r rest)

theorem further_items_compact : ∀ (vs : List Value) (rest : List Char),
    FurtherItems (behindItem vs ++ rest) vs rest
  | [], rest => .none (spaced_self _)
  | w :: r, rest => by
    rw [behindItem, compactItems_cons, List.cons_append, List.append_assoc]
    exact .some (spaced_self _) (spaced_self _) (written_compact w _) (further_items_compact r rest)

theorem members_compact : ∀ (ms : List (String × Value)) (rest : List Char),
    Members (compactMembers ms ++ rest) ms rest
  | [], rest => .none (spaced_self _)
  | (k, v) :: r, rest => by
    rw [compactMembers_cons, List.append_assoc, quoted_append, List.cons_append, List.append_assoc]
    exact .some (.mk (spaced_self _) (spells_quoted k _) (spaced_self _) (spaced_self _)
      (written_compact v _)) (further_members_compact r rest)

theorem further_members_compact : ∀ (ms : List (String × Value)) (rest : List Char),
    FurtherMembers (behindMember ms ++ rest) ms rest
  | [], rest => .none (spaced_self _)
  | (k, v) :: r, rest => by
    rw [behindMember, compactMembers_cons, List.cons_append, List.append_assoc, quoted_append,
      List.cons_append, List.append_assoc]
    exact .some (spaced_self _) (.mk (spaced_self _) (spells_quoted k _) (spaced_self _)
      (spaced_self _) (written_compact v _)) (further_members_compact r rest)

end

mutual

theorem written_pretty : ∀ (depth : Nat) (v : Value) (rest : List Char),
    Written (v.pretty depth ++ rest) v rest
  | _, .null, _ => .null
  | _, .bool true, _ => .true
  | _, .bool false, _ => .false
  | _, .string s, rest => by
    rw [Value.pretty, quoted_append]
    exact .string (spells_quoted s rest)
  | _, .array [], rest => .array (.none (spaced_self _))
  | depth, .array (v :: r), rest => by
    simp only [Value.pretty, List.cons_append, List.append_assoc]
    exact .array (.some (spaced_newLine _ _) (written_pretty _ v _)
      (further_items_pretty depth r rest))
  | _, .object [], rest => .object (.none (spaced_self _))
  | depth, .object ((k, v) :: r), rest => by
    simp only [Value.pretty, List.cons_append, List.append_assoc, quoted_append, List.nil_append]
    exact .object (.some (.mk (spaced_newLine _ _) (spells_quoted k _) (spaced_self _)
      (spaced_space _) (written_pretty _ v _)) (further_members_pretty depth r rest))

theorem further_items_pretty : ∀ (depth : Nat) (vs : List Value) (rest : List Char),
    FurtherItems (prettyItems depth vs ++ rest) vs rest
  | depth, [], rest => by
    rw [prettyItems, List.append_assoc]
    exact .none (spaced_newLine _ _)
  | depth, v :: r, rest => by
    simp only [prettyItems, List.cons_append, List.append_assoc]
    exact .some (spaced_self _) (spaced_newLine _ _) (written_pretty _ v _)
      (further_items_pretty depth r rest)

theorem further_members_pretty : ∀ (depth : Nat) (ms : List (String × Value)) (rest : List Char),
    FurtherMembers (prettyMembers depth ms ++ rest) ms rest
  | depth, [], rest => by
    rw [prettyMembers, List.append_assoc]
    exact .none (spaced_newLine _ _)
  | depth, (k, v) :: r, rest => by
    simp only [prettyMembers, List.cons_append, List.append_assoc, quoted_append, List.nil_append]
    exact .some (spaced_self _) (.mk (spaced_newLine _ _) (spells_quoted k _) (spaced_self _)
      (spaced_space _) (written_pretty _ v _)) (further_members_pretty depth r rest)

end

theorem isText_of_written {text : List Char} {v : Value} (written : Written (text ++ []) v []) :
    IsText text v := by
  rw [List.append_nil] at written
  exact ⟨text, [], spaced_self _, written, spaced_self _⟩

theorem isText_compact (v : Value) : IsText v.compactText.toList v := by
  rw [Value.compactText, String.toList_ofList]
  exact isText_of_written (written_compact v [])

theorem isText_pretty (v : Value) : IsText v.prettyText.toList v := by
  rw [Value.prettyText, String.toList_ofList]
  exact isText_of_written (written_pretty 0 v [])

end HotReload.Json
