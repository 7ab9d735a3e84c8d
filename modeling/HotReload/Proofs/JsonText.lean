import HotReload.Snapshot.Text
import HotReload.Text.Printable

namespace HotReload.Json

theorem printable_hexadecimal : ∀ n, n < 16 → 0x20 ≤ (Hexadecimal.digit n).toNat := by decide

theorem printable_escapeChar (c : Char) : Printable (escapeChar c) := by
  unfold escapeChar
  split
  case h_8 =>
    split
    · rename_i low
      have high_digit := printable_hexadecimal (c.toNat / 16) (by omega)
      have low_digit := printable_hexadecimal (c.toNat % 16) (by omega)
      simp only [printable_cons, high_digit, low_digit, printable_nil, and_true]
      decide
    · rename_i shown
      exact printable_cons.mpr ⟨Nat.le_of_not_lt shown, printable_nil⟩
  all_goals decide

theorem printable_quoted (s : String) : Printable (quoted s) := by
  have body : Printable (s.toList.flatMap escapeChar) := by
    intro c member
    obtain ⟨a, _, escaped⟩ := List.mem_flatMap.mp member
    exact printable_escapeChar a c escaped
  simp only [quoted, printable_cons, printable_append, body, printable_nil, and_true]
  decide

mutual

theorem printable_compact : ∀ v : Value, Printable v.compact
  | .null => by decide
  | .bool true => by decide
  | .bool false => by decide
  | .string s => by
    simp only [Value.compact]
    exact printable_quoted s
  | .array items => by
    simp only [Value.compact, printable_cons]
    exact ⟨by decide, printable_compactItems items⟩
  | .object members => by
    simp only [Value.compact, printable_cons]
    exact ⟨by decide, printable_compactMembers members⟩

theorem printable_compactItems : ∀ vs : List Value, Printable (compactItems vs)
  | [] => by decide
  | [v] => by
    simp only [compactItems, printable_append, printable_compact v, true_and]
    decide
  | v :: w :: r => by
    simp only [compactItems, printable_append, printable_cons, printable_compact v,
      printable_compactItems (w :: r), true_and, and_true]
    decide

theorem printable_compactMembers : ∀ ms : List (String × Value), Printable (compactMembers ms)
  | [] => by decide
  | [(k, v)] => by
    simp only [compactMembers, printable_append, printable_cons, printable_quoted k,
      printable_compact v, true_and]
    decide
  | (k, v) :: m :: r => by
    simp only [compactMembers, printable_append, printable_cons, printable_quoted k,
      printable_compact v, printable_compactMembers (m :: r), true_and, and_true]
    decide

end

theorem compactMembers_eq_brace {ms : List (String × Value)}
    (closed : compactMembers ms = ['\x7d']) : ms = [] := by
  cases ms with
  | nil => rfl
  | cons m r =>
    obtain ⟨k, v⟩ := m
    cases r <;> simp [compactMembers, quoted] at closed

end HotReload.Json

namespace HotReload.Payload

theorem printable_text (p : Payload) : Printable p.text.toList := by
  simp only [text, Json.Value.compactText, String.toList_ofList]
  exact Json.printable_compact _

theorem text_eq_braces_iff (p : Payload) : p.text = "\x7b\x7d" ↔ p.isEmpty = true := by
  have chars : p.text = "\x7b\x7d" ↔ p.toJson.compact = ['\x7b', '\x7d'] := by
    rw [text, Json.Value.compactText, ← String.toList_inj, String.toList_ofList]
    rfl
  rw [chars]
  obtain ⟨components, styles, stylesheets⟩ := p
  constructor
  · intro braces
    simp only [toJson, Json.Value.compact, List.cons.injEq, true_and] at braces
    have none_left := Json.compactMembers_eq_brace braces
    simpa [optionalMember, isEmpty, and_assoc] using none_left
  · intro empty
    simp only [isEmpty, Bool.and_eq_true, Option.isNone_iff_eq_none] at empty
    obtain ⟨⟨rfl, rfl⟩, rfl⟩ := empty
    rfl

theorem text_ne_null (p : Payload) : p.text ≠ "null" := by
  intro same
  have chars := congrArg String.toList same
  simp [text, Json.Value.compactText, toJson, Json.Value.compact] at chars

end HotReload.Payload
