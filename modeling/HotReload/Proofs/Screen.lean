import HotReload.Terminal.StatusBlock
import HotReload.Terminal.Transcript
import HotReload.Text.Printable

namespace HotReload

namespace Screen

def type (p : List Row × Row) (c : Char) : List Row × Row :=
  if c = '\n' then (p.2 :: p.1, []) else (p.1, p.2 ++ [c])

def ofTyped (p : List Row × Row) : Screen := page p.1 p.2

@[simp]
theorem put_page (above : List Row) (line : Row) (c : Char) :
    (page above line).put c = page above (line ++ [c]) := by
  simp [put, page]

theorem rows_ofRows (rows : List Row) : (ofRows rows).rows = rows ++ [[]] := by
  simp [Screen.rows, ofRows, page]

theorem ofRows_injective {as bs : List Row} (same : ofRows as = ofRows bs) : as = bs := by
  have rows := congrArg Screen.rows same
  rw [rows_ofRows, rows_ofRows] at rows
  exact List.append_cancel_right rows

theorem type_printable {cs : List Char} (printable : Printable cs) (above : List Row)
    (line : Row) : cs.foldl type (above, line) = (above, line ++ cs) := by
  induction cs generalizing line with
  | nil => rw [List.foldl_nil, List.append_nil]
  | cons c cs ih =>
    obtain ⟨visible, printable⟩ := printable_cons.mp printable
    have kept : c ≠ '\n' := by
      rintro rfl
      exact absurd visible (by decide)
    rw [List.foldl_cons, type, if_neg kept, ih printable, List.append_assoc,
      List.singleton_append]

theorem type_above (cs : List Char) (above : List Row) (line : Row) :
    cs.foldl type (above, line) =
      ((cs.foldl type ([], line)).1 ++ above, (cs.foldl type ([], line)).2) := by
  induction cs generalizing above line with
  | nil => rfl
  | cons c cs ih =>
    rw [List.foldl_cons, List.foldl_cons]
    by_cases ended : c = '\n'
    · simp only [type, ended, if_true]
      rw [ih (line :: above), ih [line], List.append_assoc, List.singleton_append]
    · simp only [type, ended, if_false]
      exact ih above (line ++ [c])

theorem length_type (cs : List Char) (above : List Row) (line : Row) :
    (cs.foldl type (above, line)).1.length = cs.count '\n' + above.length := by
  induction cs generalizing above line with
  | nil => simp
  | cons c cs ih =>
    rw [List.foldl_cons, List.count_cons]
    by_cases ended : c = '\n'
    · simp only [type, ended, if_true, beq_self_eq_true, ih, List.length_cons]
      omega
    · simp only [type, ended, if_false, beq_iff_eq, Nat.add_zero, ih]

theorem type_ended (cs : List Char) (p : List Row × Row) :
    (cs ++ ['\n']).foldl type p = ((cs.foldl type p).2 :: (cs.foldl type p).1, []) := by
  rw [List.foldl_append, List.foldl_cons, List.foldl_nil, type, if_pos rfl]

theorem modifyHead_nothing (rows : List Row) : rows.modifyHead ([] ++ ·) = rows :=
  congrFun List.modifyHead_id rows

theorem type_rows (cs : List Char) (line : Row) :
    ((cs ++ ['\n']).foldl type ([], line)).1.reverse =
      (cs.splitOn '\n').modifyHead (line ++ ·) := by
  induction cs generalizing line with
  | nil =>
    rw [List.nil_append, List.splitOn_nil, List.modifyHead_cons, List.append_nil]
    rfl
  | cons c cs ih =>
    rw [List.cons_append, List.foldl_cons, List.splitOn_cons_eq_if_modifyHead]
    by_cases ended : c = '\n'
    · simp only [type, ended, if_true, beq_self_eq_true]
      rw [type_above, List.reverse_append, ih []]
      rw [modifyHead_nothing, List.modifyHead_cons, List.append_nil]
      rfl
    · simp only [type, ended, if_false, beq_iff_eq]
      rw [ih, List.modifyHead_modifyHead]
      simp [Function.comp_def]

theorem rows_typed (cs : List Char) :
    ((cs ++ ['\n']).foldl type ([], [])).1.reverse = cs.splitOn '\n' := by
  rw [type_rows, modifyHead_nothing]

end Screen

open Screen

theorem Screen.write_append (s : Screen) (a b : String) :
    s.write (a ++ b) = (s.write a).write b := by
  rw [write, String.toList_append, List.foldl_append]
  rfl

/-- At the end of a row a text has the same effect as typing the characters `shown`, and it has
as many line feeds. -/
structure Shows (text : String) (shown : List Char) : Prop where
  screen : ∀ above line, (page above line).write text = ofTyped (shown.foldl type (above, line))
  lines : text.toList.count '\n' = shown.count '\n'

theorem Shows.append {a b : String} {shown more : List Char} (first : Shows a shown)
    (second : Shows b more) : Shows (a ++ b) (shown ++ more) where
  screen above line := by
    rw [write_append, first.screen, List.foldl_append]
    exact second.screen _ _
  lines := by
    rw [String.toList_append, List.count_append, List.count_append, first.lines, second.lines]

theorem feed_plain {cs : List Char} (plain : '\x1b' ∉ cs) (above : List Row) (line : Row) :
    cs.foldl feed (page above line) = ofTyped (cs.foldl type (above, line)) := by
  induction cs generalizing above line with
  | nil => rfl
  | cons c cs ih =>
    rw [List.mem_cons, not_or] at plain
    rw [List.foldl_cons, List.foldl_cons]
    by_cases ended : c = '\n'
    · simp only [type, ended, if_true]
      exact ih plain.2 (line :: above) []
    · have typed : feed (page above line) c = page above (line ++ [c]) := by
        simp only [feed, page, Ne.symm plain.1, ended, if_false]
        exact put_page above line c
      simp only [typed, type, ended, if_false]
      exact ih plain.2 above (line ++ [c])

theorem shows_plain {text : String} (plain : '\x1b' ∉ text.toList) : Shows text text.toList :=
  ⟨feed_plain plain, rfl⟩

theorem Printable.shows {text : String} (printable : Printable text.toList) :
    Shows text text.toList :=
  shows_plain fun member => absurd (printable '\x1b' member) (by decide)

theorem feed_digits {cs : List Char} (digits : ∀ c ∈ cs, c.isDigit = true) (s : Screen)
    (number : Nat) :
    cs.foldl feed { s with expects := .final number } =
      { s with expects := .final (Nat.ofDigitChars 10 cs number) } := by
  induction cs generalizing number with
  | nil => rw [List.foldl_nil, Nat.ofDigitChars_nil]
  | cons c cs ih =>
    obtain ⟨digit, digits⟩ := List.forall_mem_cons.mp digits
    rw [List.foldl_cons, Nat.ofDigitChars_cons]
    simp only [feed, digit, if_true]
    exact ih digits _

theorem feed_sequence (above : List Row) (line : Row) (number : Nat) (rest : List Char) :
    (Ansi.introducer.toList ++ (toString number).toList ++ rest).foldl feed (page above line) =
      rest.foldl feed { page above line with expects := .final number } := by
  have introduced : Ansi.introducer.toList.foldl feed (page above line) =
      { page above line with expects := .final 0 } := rfl
  rw [List.foldl_append, List.foldl_append, introduced, feed_digits (digits_toString number),
    Nat.toString_eq_repr, Nat.toList_repr, Nat.ofDigitChars_ten_toDigits]

theorem toList_sequence (number : Nat) (final : String) :
    (Ansi.introducer ++ toString number ++ final).toList =
      Ansi.introducer.toList ++ (toString number).toList ++ final.toList := by
  rw [String.toList_append, String.toList_append]

theorem shows_graphics (code : Nat) : Shows (Ansi.graphics code) [] where
  screen above line := by
    change (page above line).write (Ansi.introducer ++ toString code ++ "m") = _
    rw [write, toList_sequence, feed_sequence]
    rfl
  lines := by
    change (Ansi.introducer ++ toString code ++ "m").toList.count '\n' = 0
    rw [toList_sequence, List.count_append, List.count_append,
      List.count_eq_zero_of_not_mem (printable_digits code).not_mem_newline]
    rfl

theorem shows_clearLine : Shows Ansi.clearLine [] where
  screen above line := by
    have cleared : (page above line).clearLine = page above line := by
      simp [clearLine, page]
    exact cleared
  lines := by decide

theorem Shows.paint {text : String} {shown : List Char} (plain : Shows text shown)
    (style : Ansi.Style) : Shows (style.paint text) shown := by
  have painted := ((shows_graphics style.on).append plain).append (shows_graphics style.off)
  rwa [List.nil_append, List.append_nil] at painted

theorem expects_up (n : Nat) (s : Screen) : (up n s).expects = s.expects := by
  induction n generalizing s with
  | zero => rfl
  | succ n ih =>
    cases rows : s.above with
    | nil => simp only [up, rows]
    | cons row above =>
      simp only [up, rows]
      rw [ih]

theorem write_cursorUp (n : Nat) (above : List Row) (line : Row) :
    (page above line).write (Ansi.cursorUp n) = up (max n 1) (page above line) := by
  change (page above line).write (Ansi.introducer ++ toString n ++ "A") = _
  rw [write, toList_sequence, feed_sequence]
  rfl

theorem write_clearBelow {s : Screen} (reading : s.expects = .text) :
    s.write Ansi.clearBelow = s.clearBelow := by
  cases s
  cases reading
  rfl

/-- Going up and clearing takes away the rows that were gone over. -/
theorem clearBelow_up (n : Nat) (s : Screen) (start : s.column = 0) :
    (up n s).clearBelow =
      { s with above := s.above.drop n, line := [], below := [] } := by
  induction n generalizing s with
  | zero => simp [up, clearBelow, clearLine, start]
  | succ n ih =>
    cases rows : s.above with
    | nil => simp [up, rows, clearBelow, clearLine, start]
    | cons row above =>
      simp only [up, rows]
      exact ih { s with above := above, line := row, below := s.line :: s.below } start

end HotReload
