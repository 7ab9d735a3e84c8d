import HotReload.Proofs.Screen
import HotReload.Terminal.Log

namespace HotReload

open Screen

section Ended

variable {text : String} {shown : List Char}

theorem write_page (ended : Shows text (shown ++ ['\n'])) (above : List Row) :
    (page above []).write text = page ((shown.splitOn '\n').reverse ++ above) [] := by
  rw [ended.screen, type_above, ← rows_typed, List.reverse_reverse, ofTyped, type_ended]

theorem rowsOf_eq (ended : Shows text (shown ++ ['\n'])) : rowsOf text = shown.splitOn '\n' := by
  rw [rowsOf, ofRows, List.reverse_nil, write_page ended, List.append_nil]
  exact List.reverse_reverse _

theorem write_ofRows (ended : Shows text (shown ++ ['\n'])) (rows : List Row) :
    (ofRows rows).write text = ofRows (rows ++ rowsOf text) := by
  rw [rowsOf_eq ended, ofRows, write_page ended, ofRows, List.reverse_append]

theorem length_rowsOf (ended : Shows text (shown ++ ['\n'])) :
    (rowsOf text).length = text.toList.count '\n' := by
  rw [rowsOf_eq ended, ← rows_typed, List.length_reverse, length_type, ended.lines]
  rfl

theorem rowsOf_begins {pre rest : List Char} (printable : Printable pre)
    (ended : Shows text (pre ++ rest ++ ['\n'])) :
    ∃ row rows, rowsOf text = row :: rows ∧ pre <+: row := by
  obtain ⟨row, rows, split⟩ := List.exists_cons_of_ne_nil (List.splitOn_ne_nil '\n' rest)
  rw [rowsOf_eq ended, ← rows_typed, List.append_assoc, List.foldl_append,
    type_printable printable, List.nil_append, type_rows, split]
  exact ⟨pre ++ row, rows, rfl, List.prefix_append pre row⟩

end Ended

theorem shows_lineFeed : Shows "\n" ['\n'] := shows_plain (by decide)

theorem shows_blank : Shows " " [' '] := shows_plain (by decide)

theorem Shows.bracketed {text : String} {shown : List Char} (inside : Shows text shown) :
    Shows ("[" ++ text ++ "]") ('[' :: (shown ++ [']'])) := by
  have opening : Shows "[" ['['] := shows_plain (by decide)
  have closing : Shows "]" [']'] := shows_plain (by decide)
  exact (opening.append inside).append closing

theorem Note.shows_line {n : Note} (topic : Printable n.topic.toList)
    (text : Printable n.text.toList) :
    Shows n.line (('[' :: n.topic.toList) ++ (']' :: ' ' :: n.text.toList) ++ ['\n']) := by
  have label := topic.shows.bracketed.paint (Note.colour n.topic)
  have line := (((shows_clearLine.append (label.paint Ansi.bold)).append shows_blank).append
    text.shows).append shows_lineFeed
  have written : n.line = Ansi.clearLine ++
      Ansi.bold.paint ((Note.colour n.topic).paint ("[" ++ n.topic ++ "]")) ++ " " ++ n.text ++
        "\n" := rfl
  rw [written]
  simpa using line

namespace StatusBlock

theorem digits_twoDigits (n : Nat) : ∀ c ∈ (twoDigits n).toList, c.isDigit = true := by
  rw [twoDigits]
  split
  · have zero : ('0' : Char).isDigit = true := rfl
    simpa [zero] using digits_toString n
  · exact digits_toString n

theorem twoDigits_begins (n : Nat) : ∃ d rest, (twoDigits n).toList = d :: rest := by
  rw [twoDigits]
  split
  · exact ⟨'0', (toString n).toList, by simp⟩
  · exact List.exists_cons_of_ne_nil (by simp)

theorem printable_clock (seconds : Nat) : Printable (clock seconds).toList := by
  have printable (n : Nat) := printable_of_digits (digits_twoDigits n)
  simp [clock, printable]

theorem clock_begins (seconds : Nat) :
    ∃ d rest, (clock seconds).toList = d :: rest ∧ d.isDigit = true := by
  obtain ⟨d, rest, hours⟩ := twoDigits_begins (seconds / 3600 % 24)
  have digit : d.isDigit = true := digits_twoDigits _ d (by rw [hours]; exact List.mem_cons_self)
  refine ⟨d, rest ++ ':' :: (twoDigits (seconds / 60 % 60)).toList ++
    ':' :: (twoDigits (seconds % 60)).toList, ?_, digit⟩
  simp [clock, hours]

/-- The rows of the block are gone once the next status is due. -/
theorem write_erase {b : StatusBlock} (small : b.lastLines < 65536) (above : List Row) :
    (page above []).write b.erase = page (above.drop b.lastLines) [] := by
  rw [erase]
  by_cases attached : 0 < b.lastLines
  · have reading : (up (max b.lastLines 1) (page above [])).expects = .text := expects_up _ _
    rw [if_pos attached, Nat.mod_eq_of_lt small, write_append, write_cursorUp,
      write_clearBelow reading, clearBelow_up _ _ rfl, Nat.max_eq_left attached]
    rfl
  · have none : b.lastLines = 0 := by omega
    rw [if_neg attached, none]
    rfl

def shownHead (seconds : Nat) (symbol : String) (sign : List Char) : List Char :=
  '[' :: (clock seconds).toList ++ ']' :: if symbol.isEmpty then [] else ' ' :: sign

theorem shows_head {symbol : String} {sign : List Char} (signed : Shows symbol sign)
    (seconds : Nat) : Shows (head seconds symbol) (shownHead seconds symbol sign) := by
  have stamp := (printable_clock seconds).shows.bracketed.paint Ansi.dim
  rw [head, shownHead]
  split
  · simpa using stamp
  · simpa using (stamp.append shows_blank).append signed

theorem shows_body {symbol message : String} {sign shown : List Char}
    (signed : Shows symbol sign) (worded : Shows message shown) (seconds : Nat) :
    Shows (body seconds symbol message)
      (shownHead seconds symbol sign ++ ' ' :: shown ++ ['\n']) := by
  have ended := (((shows_head signed seconds).append shows_blank).append worded).append
    shows_lineFeed
  have written : body seconds symbol message = head seconds symbol ++ " " ++ message ++ "\n" := rfl
  simpa [written] using ended

/-- A status has as many rows as are counted for its message: the clock and the symbol add none. -/
theorem count_body {symbol message : String} {sign shown : List Char}
    (signed : Shows symbol sign) (visible : Printable sign) (worded : Shows message shown)
    (seconds : Nat) : (body seconds symbol message).toList.count '\n' = lineCount message := by
  have single : Printable (shownHead seconds symbol sign) := by
    rw [shownHead]
    split <;> simp [printable_clock seconds, visible]
  have head_row := List.count_eq_zero_of_not_mem single.not_mem_newline
  rw [(shows_body signed worded seconds).lines, lineCount, worded.lines]
  simp [head_row]

theorem rowsOf_erase {b : StatusBlock} (small : b.lastLines < 65536) (text : String) :
    rowsOf (b.erase ++ text) = rowsOf text := by
  have nothing := write_erase small []
  rw [List.drop_nil] at nothing
  rw [rowsOf, ofRows, List.reverse_nil, write_append, nothing]
  rfl

/-- The text overwrites the block by one with the rows that are counted in `next`. -/
structure Overwrites (b next : StatusBlock) (text : String) : Prop where
  replaces : ∀ kept block : List Row, block.length = b.lastLines →
    (ofRows (kept ++ block)).write text = ofRows (kept ++ rowsOf text)
  counted : (rowsOf text).length = next.lastLines
  begins : ∃ d row rows, rowsOf text = ('[' :: d :: row) :: rows ∧ d.isDigit = true

theorem overwrites_display {b : StatusBlock} {symbol message : String} {sign shown : List Char}
    (small : b.lastLines < 65536) (signed : Shows symbol sign) (visible : Printable sign)
    (worded : Shows message shown) (seconds : Nat) :
    Overwrites b (b.display seconds symbol message).1
      (b.display seconds symbol message).2.text := by
  have ended := shows_body signed worded seconds
  have same := rowsOf_erase small (body seconds symbol message)
  have begins : Printable ('[' :: (clock seconds).toList) :=
    printable_cons.mpr ⟨by decide, printable_clock seconds⟩
  refine ⟨fun kept block length => ?_, ?_, ?_⟩
  · change (ofRows (kept ++ block)).write (b.erase ++ body seconds symbol message) =
      ofRows (kept ++ rowsOf (b.erase ++ body seconds symbol message))
    have erased : (ofRows (kept ++ block)).write b.erase = ofRows kept := by
      rw [ofRows, write_erase small, List.reverse_append, List.drop_left' (by simpa using length)]
      rfl
    rw [write_append, erased, write_ofRows ended, same]
  · change (rowsOf (b.erase ++ body seconds symbol message)).length = lineCount message
    rw [same, length_rowsOf ended, count_body signed visible worded]
  · change ∃ d row rows, rowsOf (b.erase ++ body seconds symbol message) = _ ∧ _
    rw [shownHead, List.append_assoc ('[' :: _)] at ended
    obtain ⟨first, others, split, row, digits⟩ := rowsOf_begins begins ended
    obtain ⟨d, behind, clock_text, digit⟩ := clock_begins seconds
    refine ⟨d, behind ++ row, others, ?_, digit⟩
    rw [same, split, ← digits, clock_text]
    rfl

theorem overwrites_success {b : StatusBlock} {message : String} {shown : List Char}
    (small : b.lastLines < 65536) (worded : Shows message shown) (seconds : Nat) :
    Overwrites b (b.success seconds message).1 (b.success seconds message).2.text := by
  have check : Shows "✓" ['✓'] := shows_plain (by decide)
  exact overwrites_display small (check.paint Ansi.green) (by decide) worded seconds

theorem overwrites_unchanged {b : StatusBlock} {message : String} {shown : List Char}
    (small : b.lastLines < 65536) (worded : Shows message shown) (seconds : Nat) :
    Overwrites b (b.unchanged seconds message).1 (b.unchanged seconds message).2.text := by
  have blank : Shows "" [] := shows_plain (by decide)
  exact overwrites_display small blank printable_nil (worded.paint Ansi.dim) seconds

theorem shows_compose {summary detail : String} {shown more : List Char}
    (above : Shows summary shown) (behind : Shows detail more) :
    Shows (compose summary detail) (shown ++ if detail.isEmpty then [] else '\n' :: more) := by
  rw [compose]
  split
  · rw [List.append_nil]
    exact above
  · simpa using (above.append shows_lineFeed).append behind

theorem overwrites_failure {b : StatusBlock} {summary detail : String} {shown more : List Char}
    (small : b.lastLines < 65536) (above : Shows summary shown) (behind : Shows detail more)
    (seconds : Nat) :
    Overwrites b (b.failure seconds summary detail).1
      (b.failure seconds summary detail).2.text := by
  have cross : Shows "✗" ['✗'] := shows_plain (by decide)
  exact overwrites_display small (cross.paint Ansi.red) (by decide) (shows_compose above behind)
    seconds

end StatusBlock

end HotReload
