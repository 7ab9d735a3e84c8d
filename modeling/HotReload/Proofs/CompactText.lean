import HotReload.Proofs.JsonStrings

/-! The compact text of a JSON value belongs to no other value: what is written on the wire has
one reading. Values of different kinds differ in their first character, and no text of a value
begins the text of another one. -/
namespace HotReload.Json

def Value.first : Value → Char
  | .null => 'n'
  | .bool b => if b then 't' else 'f'
  | .string _ => '"'
  | .array _ => '['
  | .object _ => '\x7b'

theorem Value.head_compact (v : Value) : v.compact.head? = some v.first := by
  cases v with
  | null => rfl
  | bool b => cases b <;> rfl
  | string s => rfl
  | array items => rfl
  | object members => rfl

theorem Value.first_eq {v w : Value} {xs ys : List Char}
    (same : v.compact ++ xs = w.compact ++ ys) : v.first = w.first := by
  have heads := congrArg List.head? same
  rw [List.head?_append, List.head?_append, v.head_compact, w.head_compact] at heads
  exact Option.some.inj heads

def behindItem : List Value → List Char
  | [] => [']']
  | w :: r => ',' :: compactItems (w :: r)

theorem compactItems_cons (v : Value) (r : List Value) :
    compactItems (v :: r) = v.compact ++ behindItem r := by
  cases r <;> rw [compactItems, behindItem]

def behindMember : List (String × Value) → List Char
  | [] => ['\x7d']
  | m :: r => ',' :: compactMembers (m :: r)

theorem compactMembers_cons (k : String) (v : Value) (r : List (String × Value)) :
    compactMembers ((k, v) :: r) = quoted k ++ ':' :: (v.compact ++ behindMember r) := by
  cases r <;> simp only [compactMembers, behindMember, List.append_assoc, List.cons_append]

theorem compactItems_nil_ne {w : Value} {ws : List Value} {xs ys : List Char} :
    compactItems [] ++ xs ≠ compactItems (w :: ws) ++ ys := by
  intro same
  have heads := congrArg List.head? same
  rw [compactItems_cons, List.append_assoc, List.head?_append, List.head?_append,
    w.head_compact] at heads
  have bracket : ']' = w.first := Option.some.inj heads
  cases w with
  | bool b => cases b <;> simp [Value.first] at bracket
  | _ => simp [Value.first] at bracket

theorem compactMembers_nil_ne {n : String × Value} {ns : List (String × Value)}
    {xs ys : List Char} : compactMembers [] ++ xs ≠ compactMembers (n :: ns) ++ ys := by
  intro same
  rw [compactMembers_cons] at same
  simp [compactMembers, quoted] at same

mutual

theorem compact_append_inj : ∀ (v w : Value) {xs ys : List Char},
    v.compact ++ xs = w.compact ++ ys → v = w ∧ xs = ys
  | .null, w, xs, ys, same => by
    have kind := Value.first_eq same
    cases w with
    | null => exact ⟨rfl, List.append_cancel_left same⟩
    | bool b => cases b <;> simp [Value.first] at kind
    | _ => simp [Value.first] at kind
  | .bool b, w, xs, ys, same => by
    have kind := Value.first_eq same
    cases w with
    | bool c =>
      have equal : b = c := by cases b <;> cases c <;> simp [Value.first] at kind ⊢
      subst equal
      exact ⟨rfl, List.append_cancel_left same⟩
    | _ => cases b <;> simp [Value.first] at kind
  | .string s, w, xs, ys, same => by
    have kind := Value.first_eq same
    cases w with
    | string t =>
      obtain ⟨rfl, rest⟩ := quoted_append_inj same
      exact ⟨rfl, rest⟩
    | bool b => cases b <;> simp [Value.first] at kind
    | _ => simp [Value.first] at kind
  | .array items, w, xs, ys, same => by
    have kind := Value.first_eq same
    cases w with
    | array others =>
      obtain ⟨rfl, rest⟩ := compactItems_append_inj items others (List.cons.inj same).2
      exact ⟨rfl, rest⟩
    | bool b => cases b <;> simp [Value.first] at kind
    | _ => simp [Value.first] at kind
  | .object members, w, xs, ys, same => by
    have kind := Value.first_eq same
    cases w with
    | object others =>
      obtain ⟨rfl, rest⟩ := compactMembers_append_inj members others (List.cons.inj same).2
      exact ⟨rfl, rest⟩
    | bool b => cases b <;> simp [Value.first] at kind
    | _ => simp [Value.first] at kind

theorem compactItems_append_inj : ∀ (vs ws : List Value) {xs ys : List Char},
    compactItems vs ++ xs = compactItems ws ++ ys → vs = ws ∧ xs = ys
  | [], [], xs, ys, same => ⟨rfl, (List.cons.inj same).2⟩
  | [], w :: ws, xs, ys, same => absurd same compactItems_nil_ne
  | v :: vs, [], xs, ys, same => absurd same.symm compactItems_nil_ne
  | v :: vs, w :: ws, xs, ys, same => by
    rw [compactItems_cons, compactItems_cons, List.append_assoc, List.append_assoc] at same
    obtain ⟨rfl, rest⟩ := compact_append_inj v w same
    cases vs with
    | nil =>
      cases ws with
      | nil => exact ⟨rfl, (List.cons.inj rest).2⟩
      | cons x ws => simp [behindItem] at rest
    | cons u vs =>
      cases ws with
      | nil => simp [behindItem] at rest
      | cons x ws =>
        obtain ⟨later, rest⟩ :=
          compactItems_append_inj (u :: vs) (x :: ws) (List.cons.inj rest).2
        exact ⟨congrArg _ later, rest⟩

theorem compactMembers_append_inj : ∀ (ms ns : List (String × Value)) {xs ys : List Char},
    compactMembers ms ++ xs = compactMembers ns ++ ys → ms = ns ∧ xs = ys
  | [], [], xs, ys, same => ⟨rfl, (List.cons.inj same).2⟩
  | [], n :: ns, xs, ys, same => absurd same compactMembers_nil_ne
  | m :: ms, [], xs, ys, same => absurd same.symm compactMembers_nil_ne
  | (k, v) :: ms, (l, w) :: ns, xs, ys, same => by
    rw [compactMembers_cons, compactMembers_cons, List.append_assoc, List.append_assoc] at same
    obtain ⟨rfl, values⟩ := quoted_append_inj same
    simp only [List.cons_append, List.append_assoc, List.cons.injEq, true_and] at values
    obtain ⟨rfl, rest⟩ := compact_append_inj v w values
    cases ms with
    | nil =>
      cases ns with
      | nil => exact ⟨rfl, (List.cons.inj rest).2⟩
      | cons n ns => simp [behindMember] at rest
    | cons m ms =>
      cases ns with
      | nil => simp [behindMember] at rest
      | cons n ns =>
        obtain ⟨later, rest⟩ :=
          compactMembers_append_inj (m :: ms) (n :: ns) (List.cons.inj rest).2
        exact ⟨congrArg _ later, rest⟩

end

theorem compactText_injective {v w : Value} (same : v.compactText = w.compactText) : v = w := by
  have texts : v.compact ++ [] = w.compact ++ [] := by
    rw [List.append_nil, List.append_nil]
    simpa only [Value.compactText, String.toList_ofList] using congrArg String.toList same
  exact (compact_append_inj v w texts).1

end HotReload.Json
