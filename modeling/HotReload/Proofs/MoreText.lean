import HotReload.Proofs.ReaderSteps

/-! A text with more behind it. What a reader takes from the front of a text it takes from the
front of every longer one, and the value is the same: nothing behind it was looked at. Only a
number has to be ended by another character. -/
namespace HotReload.Json

variable {α σ δ : Type} {n m : Nat} {s r rest : List Char}

theorem skipSpace_append {c : Char} (next : skipSpace s = c :: r) (more : List Char) :
    skipSpace (s ++ more) = c :: (r ++ more) := by
  have stopped : s.dropWhile isSpace = c :: r := next
  rw [skipSpace, List.dropWhile_append, stopped]
  rfl

theorem ne_nil_of_skipSpace {c : Char} (next : skipSpace s = c :: r) : s ≠ [] := by
  rintro rfl
  cases next

theorem Hex4.append {u : Nat} (digits : Hex4 s u rest) (more : List Char) :
    Hex4 (s ++ more) u (rest ++ more) := by
  obtain ⟨a, b, c, d, w, x, y, z, rfl, values⟩ := digits
  exact ⟨a, b, c, d, w, x, y, z, rfl, values⟩

theorem Escape.append {c : Char} (escape : Escape s c rest) (more : List Char) :
    Escape (s ++ more) c (rest ++ more) := by
  cases escape with
  | simple known => exact .simple known
  | code digits not_high not_low => exact .code (digits.append more) not_high not_low
  | pair first high second low => exact .pair (first.append more) high (second.append more) low

theorem Spells.append {cs : List Char} (spelled : Spells s cs rest) (more : List Char) :
    Spells (s ++ more) cs (rest ++ more) := by
  induction spelled with
  | close => exact .close
  | plain not_quote not_backslash shown _ ih => exact .plain not_quote not_backslash shown ih
  | escape escape _ ih => exact .escape (escape.append more) ih

theorem readWord_append {value a : α} {word : List Char} {bound : s.length < n}
    (taken : Yields (readWord value word s bound) a rest) (more : List Char)
    (small : (s ++ more).length < m) :
    Yields (readWord value word (s ++ more) small) a (rest ++ more) := by
  rw [yields_readWord_iff] at taken ⊢
  rw [taken.1, List.append_assoc]
  exact ⟨rfl, taken.2⟩

section Numbers

open Numeral (isDigit)

variable {cut : Fault} {ds : Digits}

theorem dropWhile_isDigit_append (ended : r.dropWhile isDigit ≠ []) (more : List Char) :
    (r ++ more).dropWhile isDigit = r.dropWhile isDigit ++ more ∧
      (r ++ more).takeWhile isDigit = r.takeWhile isDigit := by
  rw [List.dropWhile_append, List.takeWhile_append, if_neg, if_neg]
  · exact ⟨rfl, rfl⟩
  · intro whole
    have parts := congrArg List.length (List.takeWhile_append_dropWhile (p := isDigit) (l := r))
    rw [List.length_append, whole, Nat.add_eq_left, List.length_eq_zero_iff] at parts
    exact ended parts
  · simpa using ended

theorem readDigits_append {bound : s.length ≤ n} (taken : Yields (readDigits cut s bound) ds rest)
    (ended : rest ≠ []) (more : List Char) (small : (s ++ more).length ≤ m) :
    Yields (readDigits cut (s ++ more) small) ds (rest ++ more) := by
  cases s with
  | nil => exact (not_yields_error taken).elim
  | cons c r =>
    unfold readDigits at taken
    dsimp only at taken
    split at taken
    · rename_i digit
      obtain ⟨rfl, rfl⟩ := yields_ok_iff.mp taken
      obtain ⟨kept, same⟩ := dropWhile_isDigit_append ended more
      simp only [List.cons_append, readDigits, digit, if_true, kept, same]
      exact yields_ok _
    · exact (not_yields_error taken).elim

theorem two_of_readDigits {bound : s.length ≤ n} (taken : Yields (readDigits cut s bound) ds rest)
    (ended : rest ≠ []) : ∃ c d r, s = c :: d :: r := by
  match s with
  | [] => exact (not_yields_error taken).elim
  | [c] =>
    unfold readDigits at taken
    dsimp only at taken
    split at taken
    · obtain ⟨_, rfl⟩ := yields_ok_iff.mp taken
      exact (ended rfl).elim
    · exact (not_yields_error taken).elim
  | c :: d :: r => exact ⟨c, d, r, rfl⟩

theorem readInteger_append {bound : s.length ≤ n}
    (taken : Yields (readInteger cut s bound) ds rest) (ended : rest ≠ []) (more : List Char)
    (small : (s ++ more).length ≤ m) :
    Yields (readInteger cut (s ++ more) small) ds (rest ++ more) := by
  unfold readInteger at taken
  split at taken
  · split at taken
    · exact (not_yields_error taken).elim
    · rename_i not_digit
      obtain ⟨rfl, rfl⟩ := yields_ok_iff.mp taken
      simp only [List.cons_append, readInteger, not_digit]
      exact yields_ok _
  · rename_i no_zero
    obtain ⟨c, d, r, rfl⟩ := two_of_readDigits taken ended
    rw [readInteger]
    · exact readDigits_append taken ended more small
    · intro e t _ same _
      cases same
      exact no_zero d r bound rfl HEq.rfl

theorem readFraction_append {bound : s.length < n}
    (taken : Yields (readFraction cut s bound) ds rest) (ended : rest ≠ []) (more : List Char)
    (small : (s ++ more).length < m) :
    Yields (readFraction cut (s ++ more) small) ds (rest ++ more) := by
  unfold readFraction at taken
  split at taken
  · exact readDigits_append taken ended more (length_le_of_succ_lt small)
  · rename_i no_point
    obtain ⟨rfl, rfl⟩ := yields_ok_iff.mp taken
    rw [readFraction]
    · exact yields_ok _
    · intro r _ same _
      cases s with
      | nil => exact ended rfl
      | cons c s =>
        cases same
        exact no_point s bound rfl HEq.rfl

theorem readExponent_append {power : Int} {bound : s.length < n}
    (taken : Yields (readExponent cut s bound) power rest) (ended : rest ≠ []) (more : List Char)
    (small : (s ++ more).length < m) :
    Yields (readExponent cut (s ++ more) small) power (rest ++ more) := by
  unfold readExponent at taken
  split at taken
  · rename_i c r _
    split at taken
    · rename_i letter
      split at taken
      · rename_i r _
        obtain ⟨ds, digits, rfl⟩ := yields_map_iff.mp taken
        simp only [List.cons_append, readExponent, letter, if_true]
        exact (readDigits_append digits ended more _).map _
      · rename_i r _
        obtain ⟨ds, digits, rfl⟩ := yields_map_iff.mp taken
        simp only [List.cons_append, readExponent, letter, if_true]
        exact (readDigits_append digits ended more _).map _
      · rename_i no_minus no_plus
        obtain ⟨ds, digits, rfl⟩ := yields_map_iff.mp taken
        obtain ⟨a, b, r, rfl⟩ := two_of_readDigits digits ended
        simp only [List.cons_append, readExponent, letter, if_true]
        split
        · rename_i minus _
          cases minus
          exact (no_minus _ _ rfl HEq.rfl).elim
        · rename_i plus _
          cases plus
          exact (no_plus _ _ rfl HEq.rfl).elim
        · exact (readDigits_append digits ended more _).map _
    · rename_i no_letter
      obtain ⟨rfl, rfl⟩ := yields_ok_iff.mp taken
      simp only [List.cons_append, readExponent, no_letter, if_false]
      exact yields_ok _
  · obtain ⟨_, rfl⟩ := yields_ok_iff.mp taken
    exact (ended rfl).elim

/-- An exponent or a fraction that may be absent leaves something only of a text with something
in it. -/
theorem ne_nil_of_readExponent {power : Int} {bound : s.length < n}
    (taken : Yields (readExponent cut s bound) power rest) (ended : rest ≠ []) : s ≠ [] := by
  rintro rfl
  obtain ⟨_, rfl⟩ := yields_ok_iff.mp taken
  exact ended rfl

theorem ne_nil_of_readFraction {bound : s.length < n}
    (taken : Yields (readFraction cut s bound) ds rest) (ended : rest ≠ []) : s ≠ [] := by
  rintro rfl
  obtain ⟨_, rfl⟩ := yields_ok_iff.mp taken
  exact ended rfl

theorem readUnsigned_append {x : Numeral} {bound : s.length ≤ n}
    (taken : Yields (readUnsigned cut s bound) x rest) (ended : rest ≠ []) (more : List Char)
    (small : (s ++ more).length ≤ m) :
    Yields (readUnsigned cut (s ++ more) small) x (rest ++ more) := by
  unfold readUnsigned at taken
  split at taken
  · exact (not_yields_error taken).elim
  · rename_i whole read_whole
    split at taken
    · exact (not_yields_error taken).elim
    · rename_i fraction read_fraction
      split at taken
      · exact (not_yields_error taken).elim
      · rename_i power read_power
        obtain ⟨rfl, rfl⟩ := yields_ok_iff.mp taken
        have powers := read_power ▸ yields_ok power
        have fractions := read_fraction ▸ yields_ok fraction
        have wholes := read_whole ▸ yields_ok whole
        have fraction_ended := ne_nil_of_readExponent powers ended
        have whole_ended := ne_nil_of_readFraction fractions fraction_ended
        obtain ⟨shorter, first⟩ := readInteger_append wholes whole_ended more small
        obtain ⟨less, second⟩ := readFraction_append fractions fraction_ended more shorter
        obtain ⟨_, third⟩ := readExponent_append powers ended more less
        simp only [readUnsigned, first, second, third]
        exact yields_ok _

theorem readNumber_append {x : Numeral} {bound : s.length ≤ n}
    (taken : Yields (readNumber cut s bound) x rest) (ended : rest ≠ []) (more : List Char)
    (small : (s ++ more).length ≤ m) :
    Yields (readNumber cut (s ++ more) small) x (rest ++ more) := by
  unfold readNumber at taken
  split at taken
  · exact readUnsigned_append taken ended more (length_le_of_succ_le small)
  · rename_i no_minus
    rw [readNumber]
    · exact readUnsigned_append taken ended more small
    · intro r _ same _
      cases s with
      | nil =>
        unfold readUnsigned at taken
        exact (not_yields_error taken).elim
      | cons c s =>
        cases same
        exact no_minus s bound rfl HEq.rfl

end Numbers

theorem length_append_lt {more : List Char} (less : r.length < s.length) :
    (r ++ more).length < (s ++ more).length := by
  rw [List.length_append, List.length_append]
  exact Nat.add_lt_add_right less more.length

theorem length_append_le {more : List Char} (less : r.length < s.length)
    (small : (s ++ more).length ≤ m) : (r ++ more).length ≤ m :=
  Nat.le_of_lt (Nat.lt_of_lt_of_le (length_append_lt less) small)

section Skipping

theorem skipQuoted_append {u : Unit} {bound : s.length < n}
    (taken : Yields (skipQuoted s bound) u rest) (more : List Char)
    (small : (s ++ more).length < m) :
    Yields (skipQuoted (s ++ more) small) u (rest ++ more) := by
  fun_induction skipQuoted s bound with
  | case2 =>
    obtain ⟨rfl, rfl⟩ := yields_ok_iff.mp taken
    simp only [List.cons_append, skipQuoted]
    exact yields_ok _
  | case5 r code read _ _ ih =>
    have digits := (yields_readHex4_iff _).mp (read ▸ yields_ok code)
    obtain ⟨_, longer⟩ := (yields_readHex4_iff (length_lt_succ _)).mpr (digits.append more)
    simp only [List.cons_append]
    rw [skipQuoted]
    simp only [longer, if_true]
    exact ih taken _
  | case6 e r _ not_code known _ ih =>
    simp only [List.cons_append]
    rw [skipQuoted]
    simp only [not_code, known, if_true, if_false]
    exact ih taken _
  | case9 c r _ not_quote not_backslash shown _ ih =>
    simp only [List.cons_append]
    rw [skipQuoted, if_neg shown]
    · exact ih taken _
    · exact not_quote
    · exact not_backslash
  | _ => exact (not_yields_error taken).elim

theorem skipScalar_append {c : Char} {u : Unit} {bound : r.length < n}
    (taken : Yields (skipScalar c r bound) u rest) (ended : rest ≠ []) (more : List Char)
    (small : (r ++ more).length < m) :
    Yields (skipScalar c (r ++ more) small) u (rest ++ more) := by
  unfold skipScalar at taken ⊢
  split at taken
  · exact readWord_append taken more small
  · exact readWord_append taken more small
  · exact readWord_append taken more small
  · exact skipQuoted_append taken more small
  · split at taken
    · rename_i start
      rw [if_pos start]
      obtain ⟨x, number, rfl⟩ := yields_map_iff.mp taken
      exact (readNumber_append number ended more _).map _
    · exact (not_yields_error taken).elim

theorem starts_of_skipRest {state : Awaiting} {opened : List Bracket} {u : Unit}
    {bound : s.length ≤ n} (taken : Yields (skipRest state opened s bound) u rest) :
    ∃ c r, skipSpace s = c :: r := by
  rw [skipRest] at taken
  split at taken
  · exact (not_yields_error taken).elim
  · rename_i c r next
    exact ⟨c, r, next⟩

theorem skipRest_append {state : Awaiting} {opened : List Bracket} {u : Unit}
    {bound : s.length ≤ n} (taken : Yields (skipRest state opened s bound) u rest)
    (ended : rest ≠ []) (more : List Char) (small : (s ++ more).length ≤ m) :
    Yields (skipRest state opened (s ++ more) small) u (rest ++ more) := by
  fun_induction skipRest state opened s bound with
  | case2 s _ r opened next less ih =>
    rw [skipRest_square (skipSpace_append next more) small (length_append_le less small)]
    exact ih taken _
  | case3 s _ r opened next less _ ih =>
    rw [skipRest_curly (skipSpace_append next more) small (length_append_le less small)]
    exact ih taken _
  | case5 s bound c r next less opened not_square not_curly p read _ outside =>
    obtain rfl := List.isEmpty_iff.mp outside
    obtain ⟨_, rfl⟩ := yields_ok_iff.mp taken
    have longer : (r ++ more).length < (s ++ more).length := length_append_lt less
    have scalar := skipScalar_append (read ▸ yields_ok p) ended more longer
    exact skipRest_scalar_outside (skipSpace_append next more) not_square not_curly scalar small
  | case6 s bound c r next less opened not_square not_curly p read shorter inside ih =>
    have longer : (r ++ more).length < (s ++ more).length := length_append_lt less
    obtain ⟨_, _, further⟩ := starts_of_skipRest taken
    have scalar := skipScalar_append (read ▸ yields_ok p) (ne_nil_of_skipSpace further) more longer
    obtain ⟨b, outer, rfl⟩ := List.ne_nil_iff_exists_cons.mp (by simpa using inside)
    rw [skipRest_scalar_inside (skipSpace_append next more) not_square not_curly scalar small
      (length_append_le shorter small)]
    exact ih taken _
  | case9 s _ r opened p gap _ next less read colon shorter ih =>
    have longer : (r ++ more).length < (s ++ more).length := length_append_lt less
    have name := skipQuoted_append (read ▸ yields_ok p) more longer
    rw [skipRest_member (skipSpace_append next more) name (skipSpace_append colon more) small
      (length_append_le (Nat.lt_trans shorter p.shorter) small)]
    exact ih taken _
  | case13 s _ r state b outer not_value not_member outside next =>
    obtain rfl := List.isEmpty_iff.mp outside
    obtain ⟨_, rfl⟩ := yields_ok_iff.mp taken
    exact skipRest_close_outside (skipSpace_append next more)
      (Awaiting.first_or_further not_value not_member) small
  | case14 s _ r state b outer not_value not_member inside next less ih =>
    obtain ⟨c, opened, rfl⟩ := List.ne_nil_iff_exists_cons.mp (by simpa using inside)
    rw [skipRest_close_inside (skipSpace_append next more)
      (Awaiting.first_or_further not_value not_member) small (length_append_le less small)]
    exact ih taken _
  | case15 s _ c r next _ b outer some_left _ _ ih =>
    rw [skipRest_first (skipSpace_append next more) some_left small]
    exact ih taken _
  | case16 s _ r state b outer not_value not_member not_first next less _ ih =>
    obtain rfl := (Awaiting.first_or_further not_value not_member).resolve_left not_first
    rw [skipRest_comma (skipSpace_append next more) small (length_append_le less small)]
    exact ih taken _
  | _ => exact (not_yields_error taken).elim

end Skipping

/-- The reader takes something, and once another character ends it, what it yields stays the same
with more text behind. -/
structure Steady (read : Reader α) : Prop where
  starts : ∀ {s rest : List Char} {a : α}, Yields (read s) a rest → ∃ c r, skipSpace s = c :: r
  append : ∀ {s rest : List Char} {a : α}, Yields (read s) a rest → rest ≠ [] →
    ∀ more : List Char, Yields (read (s ++ more)) a (rest ++ more)

theorem skipValue_steady : Steady skipValue where
  starts := starts_of_skipRest
  append := fun taken ended more => skipRest_append taken ended more _

theorem Steady.map {β : Type} {read : Reader α} (steady : Steady read) (f : α → β) :
    Steady fun s => (read s).map (Parsed.map f) where
  starts := by
    intro s rest b mapped
    obtain ⟨a, taken, rfl⟩ := yields_map_iff.mp mapped
    exact steady.starts taken
  append := by
    intro s rest b mapped ended more
    obtain ⟨a, taken, rfl⟩ := yields_map_iff.mp mapped
    exact (steady.append taken ended more).map f

theorem readString_steady : Steady readString where
  starts := by
    intro s rest v taken
    obtain ⟨r, next, _⟩ := yields_readString_iff.mp taken
    exact ⟨'"', r, next⟩
  append := by
    intro s rest v taken _ more
    obtain ⟨r, next, spelled⟩ := yields_readString_iff.mp taken
    exact yields_readString_iff.mpr ⟨r ++ more, skipSpace_append next more, spelled.append more⟩

theorem readBool_steady : Steady readBool where
  starts := by
    intro s rest b taken
    rw [yields_readBool_iff] at taken
    cases b <;> exact ⟨_, _, taken⟩
  append := by
    intro s rest b taken _ more
    rw [yields_readBool_iff] at taken ⊢
    cases b <;> exact skipSpace_append taken more

theorem readOptional_steady {read : Reader α} (steady : Steady read) :
    Steady (readOptional read) where
  starts := by
    intro s rest v taken
    rcases yields_readOptional_iff.mp taken with ⟨r, next, _⟩ | ⟨_, a, taken, _⟩
    · exact ⟨'n', r, next⟩
    · exact steady.starts taken
  append := by
    intro s rest v taken ended more
    rw [yields_readOptional_iff] at taken ⊢
    rcases taken with ⟨r, next, rfl, rfl⟩ | ⟨other, a, taken, rfl⟩
    · refine .inl ⟨_, skipSpace_append next more, ?_, rfl⟩
      rw [List.append_assoc]
    · obtain ⟨c, r, next⟩ := steady.starts taken
      refine .inr ⟨?_, a, steady.append taken ended more, rfl⟩
      intro t null
      cases (skipSpace_append next more).symm.trans null
      exact other r next

section Arrays

variable {item : Reader α} {first : Bool} {done as : List α}

theorem starts_of_readItems {bound : s.length ≤ n}
    (taken : Yields (readItems item first done s bound) as rest) : ∃ c r, skipSpace s = c :: r := by
  rw [readItems] at taken
  split at taken
  · exact (not_yields_error taken).elim
  · rename_i c r next
    exact ⟨c, r, next⟩

theorem readItems_append (steady : Steady item) {bound : s.length ≤ n}
    (taken : Yields (readItems item first done s bound) as rest) (more : List Char)
    (small : (s ++ more).length ≤ m) :
    Yields (readItems item first done (s ++ more) small) as (rest ++ more) := by
  fun_induction readItems item first done s bound with
  | case2 first done s _ r next =>
    obtain ⟨rfl, rfl⟩ := yields_ok_iff.mp taken
    exact readItems_end (skipSpace_append next more) small
  | case4 done s _ c r next _ some_left p read shorter ih =>
    obtain ⟨_, _, further⟩ := starts_of_readItems taken
    have first := steady.append (read ▸ yields_ok p) (ne_nil_of_skipSpace further) more
    rw [readItems_first (skipSpace_append next more) some_left first small
      (length_append_le shorter small)]
    exact ih taken _
  | case7 first done s _ r not_first some_left p read shorter next less _ ih =>
    obtain rfl := Bool.eq_false_iff.mpr not_first
    obtain ⟨_, _, further⟩ := starts_of_readItems taken
    obtain ⟨c, t, start⟩ := steady.starts (read ▸ yields_ok p)
    have item := steady.append (read ▸ yields_ok p) (ne_nil_of_skipSpace further) more
    rw [readItems_comma (skipSpace_append next more) ?_ item small
      (length_append_le (Nat.lt_trans shorter less) small)]
    · exact ih taken _
    · rw [skipSpace_append start more]
      rwa [start] at some_left
  | _ => exact (not_yields_error taken).elim

theorem readList_steady (steady : Steady item) : Steady (readList item) where
  starts := by
    intro s rest as taken
    obtain ⟨r, _, next, _⟩ := yields_readList_iff.mp taken
    exact ⟨'[', r, next⟩
  append := by
    intro s rest as taken _ more
    obtain ⟨r, _, next, items⟩ := yields_readList_iff.mp taken
    have longer := skipSpace_append next more
    exact yields_readList_iff.mpr ⟨r ++ more, length_le_of_skipSpace longer, longer,
      readItems_append steady items more _⟩

end Arrays

section Objects

variable {member : σ → String → Except Fault (Reader σ)} {first : Bool} {state after : σ}

theorem starts_of_readMembers {bound : s.length ≤ n}
    (taken : Yields (readMembers member first state s bound) after rest) :
    ∃ c r, skipSpace s = c :: r := by
  rw [readMembers] at taken
  split at taken
  · exact (not_yields_error taken).elim
  · rename_i c r next
    exact ⟨c, r, next⟩

theorem readMembers_append
    (steady : ∀ {state name read}, member state name = .ok read → Steady read)
    {bound : s.length ≤ n} (taken : Yields (readMembers member first state s bound) after rest)
    (more : List Char) (small : (s ++ more).length ≤ m) :
    Yields (readMembers member first state (s ++ more) small) after (rest ++ more) := by
  fun_induction readMembers member first state s bound with
  | case2 first state s _ r next =>
    obtain ⟨rfl, rfl⟩ := yields_ok_iff.mp taken
    exact readMembers_end (skipSpace_append next more) small
  | case11 first state s _ c r next less some_left comma d name start _ quote key quoted key_lt
      read known e gap colon gap_lt is_colon p value shorter ih =>
    obtain rfl := Decidable.not_not.mp quote
    obtain rfl := Decidable.not_not.mp is_colon
    obtain ⟨_, _, further⟩ := starts_of_readMembers taken
    have literal := ((yields_literal_iff _).mp (quoted ▸ yields_ok key)).append more
    have whole := (steady known).append (value ▸ yields_ok p) (ne_nil_of_skipSpace further) more
    have separated : first = true ∨ c = ',' := by
      cases first with
      | true => exact .inl rfl
      | false => exact .inr (by simpa using comma)
    have longer : skipSpace (if first then c :: (r ++ more) else r ++ more) =
        '"' :: (name ++ more) := by
      cases first <;> exact skipSpace_append start more
    rw [readMembers_member (skipSpace_append next more) some_left separated longer literal known
      (skipSpace_append colon more) whole small
      (length_append_le (Nat.lt_trans shorter (Nat.lt_trans gap_lt key_lt)) small)]
    exact ih taken _
  | _ => exact (not_yields_error taken).elim

theorem readPairs_steady {value : Reader α} (steady : Steady value) : Steady (readPairs value) where
  starts := by
    intro s rest pairs taken
    obtain ⟨r, _, next, _⟩ := yields_readPairs_iff.mp taken
    exact ⟨'\x7b', r, next⟩
  append := by
    intro s rest pairs taken _ more
    obtain ⟨r, _, next, members⟩ := yields_readPairs_iff.mp taken
    have longer := skipSpace_append next more
    refine yields_readPairs_iff.mpr ⟨r ++ more, length_le_of_skipSpace longer, longer, ?_⟩
    refine readMembers_append ?_ members more _
    rintro pairs name read ⟨⟩
    exact steady.map fun v => (name, v) :: pairs

end Objects

section Records

variable {record : Record δ α} {fields : List (Field δ)} {first : Bool} {draft after : δ} {a : α}

theorem starts_of_readElements {bound : s.length ≤ n}
    (taken : Yields (Record.readElements first draft fields s bound) after rest) :
    ∃ c r, skipSpace s = c :: r := by
  cases fields
  all_goals
    rw [Record.readElements] at taken
    split at taken
    · exact (not_yields_error taken).elim
    · rename_i c r next
      exact ⟨c, r, next⟩

theorem readElements_append (steady : ∀ f ∈ fields, ∀ draft, Steady (f.read draft))
    {bound : s.length ≤ n}
    (taken : Yields (Record.readElements first draft fields s bound) after rest)
    (more : List Char) (small : (s ++ more).length ≤ m) :
    Yields (Record.readElements first draft fields (s ++ more) small) after (rest ++ more) := by
  fun_induction Record.readElements first draft fields s bound with
  | case2 fs first draft s _ r next =>
    obtain ⟨rfl, rfl⟩ := yields_ok_iff.mp taken
    exact readElements_end (skipSpace_append next more) small
  | case5 draft s _ c r next _ some_left f fs p read ih =>
    obtain ⟨_, _, further⟩ := starts_of_readElements taken
    have value := (steady f List.mem_cons_self draft).append (read ▸ yields_ok p)
      (ne_nil_of_skipSpace further) more
    rw [readElements_first (skipSpace_append next more) some_left value small
      (length_append_le p.shorter small)]
    exact ih (fun g listed => steady g (List.mem_cons_of_mem f listed)) taken _
  | case8 first draft s _ r f fs not_first some_left p read next less _ ih =>
    obtain rfl := Bool.eq_false_iff.mpr not_first
    obtain ⟨_, _, further⟩ := starts_of_readElements taken
    have field := steady f List.mem_cons_self draft
    obtain ⟨c, t, start⟩ := field.starts (read ▸ yields_ok p)
    have value := field.append (read ▸ yields_ok p) (ne_nil_of_skipSpace further) more
    rw [readElements_comma (skipSpace_append next more) ?_ value small
      (length_append_le (Nat.lt_trans p.shorter less) small)]
    · exact ih (fun g listed => steady g (List.mem_cons_of_mem f listed)) taken _
    · rw [skipSpace_append start more]
      rwa [start] at some_left
  | _ => exact (not_yields_error taken).elim

theorem steady_of_member (steady : ∀ f ∈ record.fields, ∀ draft, Steady (f.read draft))
    {state : δ × List String} {name : String} {read : Reader (δ × List String)}
    (known : record.member state name = .ok read) : Steady read := by
  unfold Record.member at known
  split at known
  · cases known
    exact skipValue_steady.map _
  · rename_i f found
    split at known
    · cases known
    · cases known
      exact (steady f (List.mem_of_find?_eq_some found) state.1).map _

/-- A record ends with its own bracket, so it needs no other character to end it. -/
theorem read_append (steady : ∀ f ∈ record.fields, ∀ draft, Steady (f.read draft))
    (taken : Yields (record.read s) a rest) (more : List Char) :
    Yields (record.read (s ++ more)) a (rest ++ more) := by
  obtain ⟨r, _, ⟨next, state, members, complete⟩ | ⟨next, draft, elements, complete⟩⟩ :=
    yields_record_iff.mp taken
  · have longer := skipSpace_append next more
    refine yields_record_iff.mpr ⟨r ++ more, length_le_of_skipSpace longer,
      .inl ⟨longer, state, readMembers_append (steady_of_member steady) members more _, complete⟩⟩
  · have longer := skipSpace_append next more
    exact yields_record_iff.mpr ⟨r ++ more, length_le_of_skipSpace longer,
      .inr ⟨longer, draft, readElements_append steady elements more _, complete⟩⟩

theorem record_steady (steady : ∀ f ∈ record.fields, ∀ draft, Steady (f.read draft)) :
    Steady record.read where
  starts := by
    intro s rest a taken
    obtain ⟨r, _, ⟨next, _⟩ | ⟨next, _⟩⟩ := yields_record_iff.mp taken
    · exact ⟨'\x7b', r, next⟩
    · exact ⟨'[', r, next⟩
  append := fun taken _ more => read_append steady taken more

end Records

end HotReload.Json
