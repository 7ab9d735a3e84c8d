import HotReload.Json.Printer
import HotReload.Proofs.Reading

namespace HotReload.Json

variable {text cs ds rest tail : List Char}

theorem spells_escapeChar (c : Char) (later : Spells text cs rest) :
    Spells (escapeChar c ++ text) (c :: cs) rest := by
  unfold escapeChar
  split
  case h_8 not_quote not_backslash _ _ _ _ _ =>
    split
    · rename_i low
      have high_digit : Hexadecimal.value? (Hexadecimal.digit (c.toNat / 16)) = _ :=
        Hexadecimal.value?_digit (by omega)
      have low_digit : Hexadecimal.value? (Hexadecimal.digit (c.toNat % 16)) = _ :=
        Hexadecimal.value?_digit (by omega)
      have digits : Hex4 ('0' :: '0' :: Hexadecimal.digit (c.toNat / 16) ::
          Hexadecimal.digit (c.toNat % 16) :: text) c.toNat text :=
        ⟨_, _, _, _, 0, 0, _, _, rfl, by decide, by decide, high_digit, low_digit, by omega⟩
      have escape := Escape.code digits (fun high => by omega) (fun half => by omega)
      rw [Char.ofNat_toNat] at escape
      exact .escape escape later
    · rename_i shown
      exact .plain not_quote not_backslash (Nat.le_of_not_lt shown) later
  all_goals exact .escape (.simple rfl) later

theorem spells_quoted (s : String) (rest : List Char) :
    Spells (s.toList.flatMap escapeChar ++ '"' :: rest) s.toList rest := by
  induction s.toList with
  | nil => exact .close
  | cons c cs ih =>
    rw [List.flatMap_cons, List.append_assoc]
    exact spells_escapeChar c ih

theorem quoted_append (s : String) (rest : List Char) :
    quoted s ++ rest = '"' :: (s.toList.flatMap escapeChar ++ '"' :: rest) := by
  simp only [quoted, List.cons_append, List.append_assoc, List.nil_append]

theorem Spells.unique (first : Spells text cs rest) (second : Spells text ds tail) :
    cs = ds ∧ rest = tail := by
  have reads : ∀ {es behind : List Char}, Spells text es behind →
      Yields (readQuoted [] text (length_lt_succ text)) (String.ofList es) behind := by
    intro es behind spelled
    exact (yields_readQuoted_iff _).mpr ⟨es, spelled, rfl⟩
  obtain ⟨same, rfl⟩ := (reads first).unique (reads second)
  exact ⟨String.ofList_injective same, rfl⟩

/-- No quoted string begins another one with something behind it. -/
theorem quoted_append_inj {s t : String} {xs ys : List Char}
    (same : quoted s ++ xs = quoted t ++ ys) : s = t ∧ xs = ys := by
  rw [quoted_append, quoted_append] at same
  have first := spells_quoted s xs
  rw [(List.cons.inj same).2] at first
  obtain ⟨chars, rfl⟩ := first.unique (spells_quoted t ys)
  exact ⟨String.toList_inj.mp chars, rfl⟩

end HotReload.Json
