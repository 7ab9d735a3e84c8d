import HotReload.Proofs.Utf8

namespace HotReload.Utf8

/-- The cut splits a character: some of its bytes are kept and some are lost. -/
def CutsCharacter (kept lost : List UInt8) : Prop :=
  ∃ (before after : List Char) (c : Char) (front back : List UInt8), front ≠ [] ∧ back ≠ [] ∧
    encodeChar c = front ++ back ∧ kept = before.flatMap encodeChar ++ front ∧
    lost = back ++ after.flatMap encodeChar

/-- Bytes that begin with a character belong to a text that begins with it. -/
theorem text_of_encodeChar {c : Char} {rest : List UInt8} {cs : List Char}
    (same : encodeChar c ++ rest = cs.flatMap encodeChar) :
    ∃ ds, cs = c :: ds ∧ rest = ds.flatMap encodeChar := by
  have read := pieces_encodeChar c rest
  rw [same, pieces_flatMap_encodeChar] at read
  cases cs with
  | nil => cases read
  | cons d ds =>
    obtain ⟨first, _⟩ := List.cons.inj read
    cases first
    rw [List.flatMap_cons] at same
    exact ⟨ds, rfl, List.append_cancel_left same⟩

theorem text_of_prefix {before cs : List Char} {rest : List UInt8}
    (same : before.flatMap encodeChar ++ rest = cs.flatMap encodeChar) :
    ∃ after, cs = before ++ after ∧ rest = after.flatMap encodeChar := by
  induction before generalizing cs with
  | nil => exact ⟨cs, rfl, same⟩
  | cons c before ih =>
    rw [List.flatMap_cons, List.append_assoc] at same
    obtain ⟨ds, rfl, later⟩ := text_of_encodeChar same
    obtain ⟨after, rfl, rest⟩ := ih later
    exact ⟨after, rfl, rest⟩

/-- Every cut falls between two characters or splits one. -/
theorem cut_between_or_inside {kept lost : List UInt8} {cs : List Char}
    (whole : kept ++ lost = cs.flatMap encodeChar) :
    (∃ before after, cs = before ++ after ∧ kept = before.flatMap encodeChar ∧
      lost = after.flatMap encodeChar) ∨ CutsCharacter kept lost := by
  induction cs generalizing kept with
  | nil =>
    obtain ⟨rfl, rfl⟩ := List.append_eq_nil_iff.mp whole
    exact .inl ⟨[], [], rfl, rfl, rfl⟩
  | cons c cs ih =>
    rw [List.flatMap_cons] at whole
    rcases List.append_eq_append_iff.mp whole with ⟨back, split, behind⟩ | ⟨later, rfl, rest⟩
    · cases kept with
      | nil =>
        refine .inl ⟨[], c :: cs, rfl, rfl, ?_⟩
        rw [List.flatMap_cons, ← whole, List.nil_append]
      | cons b kept =>
        cases back with
        | nil =>
          refine .inl ⟨[c], cs, rfl, ?_, behind⟩
          rw [List.flatMap_singleton, split, List.append_nil]
        | cons d back =>
          exact .inr ⟨[], cs, c, b :: kept, d :: back, List.cons_ne_nil _ _,
            List.cons_ne_nil _ _, split, rfl, behind⟩
    · rcases ih rest.symm with ⟨before, after, rfl, rfl, rfl⟩ |
        ⟨before, after, d, front, back, some_kept, some_lost, split, rfl, rfl⟩
      · exact .inl ⟨c :: before, after, rfl, List.flatMap_cons.symm, rfl⟩
      · refine .inr ⟨c :: before, after, d, front, back, some_kept, some_lost, split, ?_, rfl⟩
        rw [List.flatMap_cons, List.append_assoc]

theorem decode?_of_cut {kept lost : List UInt8} (cut : CutsCharacter kept lost) :
    decode? kept = none := by
  obtain ⟨before, _, c, front, back, some_kept, some_lost, split, rfl, _⟩ := cut
  rw [Option.eq_none_iff_forall_ne_some]
  intro s read
  have bytes : before.flatMap encodeChar ++ front = s.toList.flatMap encodeChar :=
    (encode_of_decode? read).symm
  obtain ⟨after, _, rfl⟩ := text_of_prefix bytes
  cases after with
  | nil => exact some_kept rfl
  | cons d after =>
    -- a whole character at the cut would be the one that was split, with nothing of it lost
    have first : encodeChar d ++ (after.flatMap encodeChar ++ back) = [c].flatMap encodeChar := by
      rw [List.flatMap_singleton, split, List.flatMap_cons, List.append_assoc]
    obtain ⟨none_left, whole, rest⟩ := text_of_encodeChar first
    obtain ⟨rfl, rfl⟩ := List.cons.inj whole
    exact some_lost (List.append_eq_nil_iff.mp rest).2

theorem decode?_flatMap (cs : List Char) :
    decode? (cs.flatMap encodeChar) = some (String.ofList cs) := by
  have encoded := decode?_encode (String.ofList cs)
  rwa [encode, String.toList_ofList] at encoded

end HotReload.Utf8
