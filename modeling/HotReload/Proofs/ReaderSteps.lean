import HotReload.Json.Record
import HotReload.Proofs.Reading

namespace HotReload.Json

variable {α σ δ : Type} {n : Nat} {s r rest : List Char}

theorem skipSpace_of_spaced {c : Char} (spaced : Spaced s (c :: r)) (solid : isSpace c = false) :
    skipSpace s = c :: r := by
  obtain ⟨space, blank, rfl⟩ := spaced
  rw [skipSpace, List.dropWhile_append_of_pos blank, List.dropWhile_cons_of_neg]
  exact Bool.eq_false_iff.mp solid

theorem skipSpace_self {c : Char} (solid : isSpace c = false) : skipSpace (c :: r) = c :: r := by
  rw [skipSpace, List.dropWhile_cons_of_neg]
  exact Bool.eq_false_iff.mp solid

theorem skipSpace_eq_nil_iff : skipSpace s = [] ↔ ∀ c ∈ s, isSpace c = true := by
  induction s with
  | nil => simp [skipSpace]
  | cons c s ih =>
    rw [List.forall_mem_cons, ← ih, skipSpace, List.dropWhile_cons]
    split
    · rename_i space
      exact (and_iff_right space).symm
    · rename_i solid
      simp [solid]

section Scalars

theorem yields_readString_iff {v : String} :
    Yields (readString s) v rest ↔ ∃ r, skipSpace s = '"' :: r ∧ Spells r v.toList rest := by
  unfold readString
  split
  · rename_i empty
    simp [empty, not_yields_error]
  · rename_i c r here
    simp only [here]
    split
    · rename_i quote
      rw [yields_literal_iff, quote]
      simp
    · rename_i other
      simp [other, not_yields_error]

theorem yields_readBool_iff {b : Bool} :
    Yields (readBool s) b rest ↔
      skipSpace s = (if b then "true" else "false").toList ++ rest := by
  unfold readBool
  split
  · rename_i empty
    cases b <;> simp [empty, not_yields_error]
  · rename_i c r here
    simp only [here]
    split
    · rename_i letter
      cases b <;> simp [yields_readWord_iff, letter]
    · split
      · rename_i letter
        cases b <;> simp [yields_readWord_iff, letter]
      · rename_i not_true not_false
        cases b <;> simp [not_yields_error, not_true, not_false]

theorem yields_readOptional_iff {read : Reader α} {v : Option α} :
    Yields (readOptional read s) v rest ↔
      (∃ r, skipSpace s = 'n' :: r ∧ r = "ull".toList ++ rest ∧ v = none) ∨
      (∀ r, skipSpace s ≠ 'n' :: r) ∧ ∃ a, Yields (read s) a rest ∧ v = some a := by
  unfold readOptional
  split
  · rename_i empty
    simp [yields_map_iff, empty, eq_comm]
  · rename_i c r here
    simp only [here]
    split
    · rename_i letter
      simp [yields_readWord_iff, letter, eq_comm]
    · rename_i other
      simp [yields_map_iff, other, eq_comm]

end Scalars

section Arrays

variable {item : Reader α} {first : Bool} {done as : List α} {a : α}

theorem readItems_end (next : skipSpace s = ']' :: rest) (bound : s.length ≤ n) :
    Yields (readItems item first done s bound) done.reverse rest := by
  rw [readItems]
  split
  · rename_i empty
    cases next.symm.trans empty
  · rename_i here
    cases next.symm.trans here
    exact yields_ok _

theorem readItems_first {c : Char} (next : skipSpace s = c :: r) (some_left : c ≠ ']')
    (taken : Yields (item s) a rest) (bound : s.length ≤ n) (small : rest.length ≤ n) :
    readItems item true done s bound = readItems item false (a :: done) rest small := by
  obtain ⟨_, read⟩ := taken
  rw [readItems]
  split
  · rename_i empty
    cases next.symm.trans empty
  · rename_i here
    cases next.symm.trans here
    simp only [some_left, read, if_false, if_true]

theorem readItems_comma (next : skipSpace s = ',' :: r) (some_left : (skipSpace r).head? ≠ some ']')
    (taken : Yields (item r) a rest) (bound : s.length ≤ n) (small : rest.length ≤ n) :
    readItems item false done s bound = readItems item false (a :: done) rest small := by
  obtain ⟨_, read⟩ := taken
  rw [readItems]
  split
  · rename_i empty
    cases next.symm.trans empty
  · rename_i here
    cases next.symm.trans here
    simp only [some_left, read, if_false, if_true, Bool.false_eq_true, Char.reduceEq]

theorem yields_readList_iff :
    Yields (readList item s) as rest ↔ ∃ (r : List Char) (bound : r.length ≤ s.length),
      skipSpace s = '[' :: r ∧ Yields (readItems item true [] r bound) as rest := by
  unfold readList
  split
  · rename_i empty
    simp [empty, not_yields_error]
  · rename_i c r here
    simp only [here]
    split
    · rename_i bracket
      subst bracket
      constructor
      · intro taken
        exact ⟨r, length_le_of_skipSpace here, rfl, taken⟩
      · rintro ⟨_, _, same, taken⟩
        cases same
        exact taken
    · rename_i other
      simp [other, not_yields_error]

end Arrays

section Objects

variable {member : σ → String → Except Fault (Reader σ)} {first : Bool} {state after : σ}
  {read : Reader σ} {key : String} {name behind gap : List Char}

theorem readMembers_end (next : skipSpace s = '\x7d' :: rest) (bound : s.length ≤ n) :
    Yields (readMembers member first state s bound) state rest := by
  rw [readMembers]
  split
  · rename_i empty
    cases next.symm.trans empty
  · rename_i here
    cases next.symm.trans here
    exact yields_ok _

theorem readMembers_member {c : Char} (next : skipSpace s = c :: r) (some_left : c ≠ '\x7d')
    (comma : first = true ∨ c = ',') (start : skipSpace (if first then c :: r else r) = '"' :: name)
    (literal : Spells name key.toList behind) (known : member state key = .ok read)
    (colon : skipSpace behind = ':' :: gap) (taken : Yields (read gap) after rest)
    (bound : s.length ≤ n) (small : rest.length ≤ n) :
    readMembers member first state s bound = readMembers member false after rest small := by
  have passed : (!first && c != ',') = false := by
    rcases comma with rfl | rfl
    · rfl
    · simp
  have name_lt : name.length < s.length := by
    have left := length_lt_of_skipSpace next
    have taken := length_lt_of_skipSpace start
    split at taken
    · simp only [List.length_cons] at taken
      omega
    · omega
  obtain ⟨_, quoted⟩ := (yields_literal_iff name_lt).mpr literal
  obtain ⟨_, value⟩ := taken
  rw [readMembers]
  split
  · rename_i empty
    cases next.symm.trans empty
  · rename_i here
    cases next.symm.trans here
    simp only [some_left, passed, if_false, Bool.false_eq_true]
    split
    · rename_i empty
      cases start.symm.trans empty
    · rename_i there
      cases start.symm.trans there
      simp only [ne_eq, not_true_eq_false, if_false, quoted, known]
      split
      · rename_i empty
        cases colon.symm.trans empty
      · rename_i behind_name
        cases colon.symm.trans behind_name
        simp only [not_true_eq_false, if_false, value]

def addPair (value : Reader α) (pairs : List (String × α)) (name : String) :
    Except Fault (Reader (List (String × α))) :=
  .ok fun s => (value s).map (Parsed.map fun v => (name, v) :: pairs)

theorem yields_readPairs_iff {value : Reader α} {pairs : List (String × α)} :
    Yields (readPairs value s) pairs rest ↔ ∃ (r : List Char) (bound : r.length ≤ s.length),
      skipSpace s = '\x7b' :: r ∧
        Yields (readMembers (addPair value) true [] r bound) pairs.reverse rest := by
  unfold readPairs
  split
  · rename_i empty
    simp [empty, not_yields_error]
  · rename_i c r here
    simp only [here]
    split
    · rename_i brace
      subst brace
      rw [yields_map_iff]
      constructor
      · rintro ⟨found, taken, rfl⟩
        rw [List.reverse_reverse]
        exact ⟨r, length_le_of_skipSpace here, rfl, taken⟩
      · rintro ⟨_, _, same, taken⟩
        cases same
        exact ⟨pairs.reverse, taken, List.reverse_reverse pairs⟩
    · rename_i other
      simp [other, not_yields_error]

end Objects

section Records

variable {record : Record δ α} {f : Field δ} {fs : List (Field δ)} {first : Bool}
  {draft after : δ} {a : α}

theorem readElements_end (next : skipSpace s = ']' :: rest) (bound : s.length ≤ n) :
    Yields (Record.readElements first draft fs s bound) draft rest := by
  cases fs
  all_goals
    rw [Record.readElements]
    split
    · rename_i empty
      cases next.symm.trans empty
    · rename_i here
      cases next.symm.trans here
      exact yields_ok _

theorem readElements_first {c : Char} (next : skipSpace s = c :: r) (some_left : c ≠ ']')
    (taken : Yields (f.read draft s) after rest) (bound : s.length ≤ n) (small : rest.length ≤ n) :
    Record.readElements true draft (f :: fs) s bound =
      Record.readElements false after fs rest small := by
  obtain ⟨_, read⟩ := taken
  rw [Record.readElements]
  split
  · rename_i empty
    cases next.symm.trans empty
  · rename_i here
    cases next.symm.trans here
    simp only [some_left, read, if_false, if_true]

theorem readElements_comma (next : skipSpace s = ',' :: r)
    (some_left : (skipSpace r).head? ≠ some ']') (taken : Yields (f.read draft r) after rest)
    (bound : s.length ≤ n) (small : rest.length ≤ n) :
    Record.readElements false draft (f :: fs) s bound =
      Record.readElements false after fs rest small := by
  obtain ⟨_, read⟩ := taken
  rw [Record.readElements]
  split
  · rename_i empty
    cases next.symm.trans empty
  · rename_i here
    cases next.symm.trans here
    simp only [some_left, read, if_false, if_true, Bool.false_eq_true, Char.reduceEq]

theorem yields_close_iff {p : Parsed δ n} :
    Yields (record.close p) a rest ↔ record.finish p.value = some a ∧ p.rest = rest := by
  unfold Record.close
  split
  · rename_i missing
    simp [missing, not_yields_error]
  · rename_i b complete
    rw [yields_ok_iff, complete, Option.some.injEq]
    rfl

theorem yields_record_iff :
    Yields (record.read s) a rest ↔ ∃ (r : List Char) (bound : r.length ≤ s.length),
      (skipSpace s = '\x7b' :: r ∧ ∃ state,
        Yields (readMembers record.member true (record.blank, []) r bound) state rest ∧
          record.finish state.1 = some a) ∨
      (skipSpace s = '[' :: r ∧ ∃ draft,
        Yields (Record.readElements true record.blank record.fields r bound) draft rest ∧
          record.finish draft = some a) := by
  unfold Record.read
  split
  · rename_i empty
    simp [empty, not_yields_error]
  · rename_i c r here
    simp only [here]
    split
    · rename_i brace
      subst brace
      constructor
      · intro taken
        split at taken
        · exact (not_yields_error taken).elim
        · rename_i p read
          obtain ⟨complete, rfl⟩ := yields_close_iff.mp taken
          exact ⟨r, length_le_of_skipSpace here, .inl ⟨rfl, p.value, read ▸ yields_ok p, complete⟩⟩
      · rintro ⟨_, _, ⟨same, state, ⟨_, read⟩, complete⟩ | ⟨other, _⟩⟩
        · cases same
          simp only [read]
          exact yields_close_iff.mpr ⟨complete, rfl⟩
        · cases other
    · rename_i not_curly
      split
      · rename_i bracket
        subst bracket
        constructor
        · intro taken
          split at taken
          · exact (not_yields_error taken).elim
          · rename_i p read
            obtain ⟨complete, rfl⟩ := yields_close_iff.mp taken
            exact ⟨r, length_le_of_skipSpace here,
              .inr ⟨rfl, p.value, read ▸ yields_ok p, complete⟩⟩
        · rintro ⟨_, _, ⟨other, _⟩ | ⟨same, draft, ⟨_, read⟩, complete⟩⟩
          · cases other
          · cases same
            simp only [read]
            exact yields_close_iff.mpr ⟨complete, rfl⟩
      · rename_i not_square
        simp [not_curly, not_square, not_yields_error]

end Records

section Skipping

variable {state : Awaiting} {b : Bracket} {opened : List Bracket} {c : Char} {u : Unit}
  {behind gap : List Char}

theorem skipRest_square (next : skipSpace s = '[' :: r) (bound : s.length ≤ n)
    (small : r.length ≤ n) :
    skipRest .value opened s bound = skipRest .first (.square :: opened) r small := by
  rw [skipRest]
  split
  · rename_i empty
    cases next.symm.trans empty
  · rename_i here
    cases next.symm.trans here
    rfl

theorem skipRest_curly (next : skipSpace s = '\x7b' :: r) (bound : s.length ≤ n)
    (small : r.length ≤ n) :
    skipRest .value opened s bound = skipRest .first (.curly :: opened) r small := by
  rw [skipRest]
  split
  · rename_i empty
    cases next.symm.trans empty
  · rename_i here
    cases next.symm.trans here
    rfl

theorem skipRest_scalar_outside (next : skipSpace s = c :: r) (not_square : c ≠ '[')
    (not_curly : c ≠ '\x7b') {shorter : r.length < s.length}
    (taken : Yields (skipScalar c r shorter) u rest) (bound : s.length ≤ n) :
    Yields (skipRest .value [] s bound) u rest := by
  obtain ⟨_, read⟩ := taken
  rw [skipRest]
  split
  · rename_i empty
    cases next.symm.trans empty
  · rename_i here
    cases next.symm.trans here
    simp only [not_square, not_curly, read, if_false, List.isEmpty_nil, if_true]
    exact yields_ok _

theorem skipRest_scalar_inside (next : skipSpace s = c :: r) (not_square : c ≠ '[')
    (not_curly : c ≠ '\x7b') {shorter : r.length < s.length}
    (taken : Yields (skipScalar c r shorter) u behind) (bound : s.length ≤ n)
    (small : behind.length ≤ n) :
    skipRest .value (b :: opened) s bound = skipRest .further (b :: opened) behind small := by
  obtain ⟨_, read⟩ := taken
  rw [skipRest]
  split
  · rename_i empty
    cases next.symm.trans empty
  · rename_i here
    cases next.symm.trans here
    simp only [not_square, not_curly, read, if_false, List.isEmpty_cons, Bool.false_eq_true]

theorem skipRest_member (next : skipSpace s = '"' :: r) {shorter : r.length < s.length}
    (taken : Yields (skipQuoted r shorter) u behind) (colon : skipSpace behind = ':' :: gap)
    (bound : s.length ≤ n) (small : gap.length ≤ n) :
    skipRest .member opened s bound = skipRest .value opened gap small := by
  obtain ⟨_, read⟩ := taken
  rw [skipRest]
  split
  · rename_i empty
    cases next.symm.trans empty
  · rename_i here
    cases next.symm.trans here
    simp only [read, if_true]
    split
    · rename_i empty
      cases colon.symm.trans empty
    · rename_i there
      cases colon.symm.trans there
      rfl

theorem Awaiting.first_or_further (not_value : state ≠ .value) (not_member : state ≠ .member) :
    state = .first ∨ state = .further := by
  cases state with
  | value => exact (not_value rfl).elim
  | member => exact (not_member rfl).elim
  | first => exact .inl rfl
  | further => exact .inr rfl

theorem skipRest_close_outside (next : skipSpace s = b.closing :: rest)
    (inside : state = .first ∨ state = .further) (bound : s.length ≤ n) :
    Yields (skipRest state [b] s bound) () rest := by
  rw [skipRest]
  split
  · rename_i empty
    cases next.symm.trans empty
  · rename_i here
    cases next.symm.trans here
    rcases inside with rfl | rfl
    all_goals
      simp only [if_true, List.isEmpty_nil]
      exact yields_ok _

theorem skipRest_close_inside {outer : Bracket} (next : skipSpace s = b.closing :: r)
    (inside : state = .first ∨ state = .further) (bound : s.length ≤ n) (small : r.length ≤ n) :
    skipRest state (b :: outer :: opened) s bound =
      skipRest .further (outer :: opened) r small := by
  rw [skipRest]
  split
  · rename_i empty
    cases next.symm.trans empty
  · rename_i here
    cases next.symm.trans here
    rcases inside with rfl | rfl
    all_goals simp only [if_true, List.isEmpty_cons, Bool.false_eq_true, if_false]

theorem skipRest_first (next : skipSpace s = c :: r) (some_left : c ≠ b.closing)
    (bound : s.length ≤ n) :
    skipRest .first (b :: opened) s bound = skipRest b.content (b :: opened) s bound := by
  rw [skipRest]
  split
  · rename_i empty
    cases next.symm.trans empty
  · rename_i here
    cases next.symm.trans here
    simp only [some_left, if_false, dif_pos]

theorem skipRest_comma (next : skipSpace s = ',' :: r) (bound : s.length ≤ n)
    (small : r.length ≤ n) :
    skipRest .further (b :: opened) s bound = skipRest b.content (b :: opened) r small := by
  have comma : ',' ≠ b.closing := by cases b <;> decide
  rw [skipRest]
  split
  · rename_i empty
    cases next.symm.trans empty
  · rename_i here
    cases next.symm.trans here
    simp [comma]

end Skipping

theorem readWhole_eq_ok_iff {read : Reader α} {a : α} :
    readWhole read s = .ok a ↔ ∃ rest, Yields (read s) a rest ∧ skipSpace rest = [] := by
  unfold readWhole
  cases taken : read s with
  | error e => simp [not_yields_error]
  | ok p =>
    simp only [yields_ok_iff, List.isEmpty_iff]
    split
    · rename_i blank
      constructor
      · rintro ⟨⟩
        exact ⟨p.rest, ⟨rfl, rfl⟩, blank⟩
      · rintro ⟨_, ⟨rfl, rfl⟩, _⟩
        rfl
    · rename_i more
      constructor
      · rintro ⟨⟩
      · rintro ⟨_, ⟨rfl, rfl⟩, blank⟩
        exact (more blank).elim

end HotReload.Json
