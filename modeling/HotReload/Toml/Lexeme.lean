import HotReload.Text.Hexadecimal
import HotReload.Text.Parsed

namespace HotReload.Toml

/-- What can be read of a text of at most `n` characters, or nothing if it is not TOML. -/
abbrev Read (α : Type) (n : Nat) := Option (Parsed α n)

def isBlank (c : Char) : Bool := c == ' ' || c == '\t'

/-- A character that may stand in a comment: anything but controls other than the tab. -/
def isPlain (c : Char) : Bool := c == '\t' || (0x20 ≤ c.toNat && c.toNat != 0x7F)

def skipBlank (s : List Char) : List Char := s.dropWhile isBlank

theorem length_skipBlank_le (s : List Char) : (skipBlank s).length ≤ s.length :=
  (List.dropWhile_sublist isBlank).length_le

def afterNewline? : List Char → Option (List Char)
  | '\n' :: r => some r
  | '\r' :: '\n' :: r => some r
  | _ => none

theorem length_lt_of_afterNewline? {s r : List Char} (h : afterNewline? s = some r) :
    r.length < s.length := by
  unfold afterNewline? at h
  split at h <;> cases h <;> simp only [List.length_cons] <;> omega

def skipComment : List Char → List Char
  | '#' :: r => r.dropWhile isPlain
  | s => s

theorem length_skipComment_le (s : List Char) : (skipComment s).length ≤ s.length := by
  unfold skipComment
  split
  · exact Nat.le_succ_of_le (List.dropWhile_sublist isPlain).length_le
  · exact Nat.le_refl _

def endLine (s : List Char) : Option (List Char) :=
  match skipComment (skipBlank s) with
  | [] => some []
  | c :: r => afterNewline? (c :: r)

theorem length_le_of_endLine {s r : List Char} (h : endLine s = some r) :
    r.length ≤ s.length := by
  have comment := length_skipComment_le (skipBlank s)
  have blank := length_skipBlank_le s
  unfold endLine at h
  split at h
  · cases h
    exact Nat.zero_le _
  · rename_i rest
    have := length_lt_of_afterNewline? h
    rw [rest] at comment
    omega

def skipLines : List Char → List Char
  | ' ' :: r => skipLines r
  | '\t' :: r => skipLines r
  | '\n' :: r => skipLines r
  | '\r' :: '\n' :: r => skipLines r
  | s => s

theorem length_skipLines_le (s : List Char) : (skipLines s).length ≤ s.length := by
  fun_induction skipLines s with
  | case1 r ih => exact Nat.le_succ_of_le ih
  | case2 r ih => exact Nat.le_succ_of_le ih
  | case3 r ih => exact Nat.le_succ_of_le ih
  | case4 r ih => exact Nat.le_succ_of_le (Nat.le_succ_of_le ih)
  | case5 => exact Nat.le_refl _

theorem length_lt_of_skipLines_comment {s r : List Char} (h : skipLines s = '#' :: r) :
    (r.dropWhile isPlain).length < s.length := by
  have lines := length_skipLines_le s
  have comment := (List.dropWhile_sublist isPlain (l := r)).length_le
  rw [h] at lines
  simp only [List.length_cons] at lines
  omega

def skipGaps (s : List Char) : List Char :=
  match h : skipLines s with
  | '#' :: r =>
    have := length_lt_of_skipLines_comment h
    skipGaps (r.dropWhile isPlain)
  | rest => rest
termination_by s.length

theorem length_skipGaps_le (s : List Char) : (skipGaps s).length ≤ s.length := by
  fun_induction skipGaps s with
  | case1 s r h shorter ih => exact Nat.le_of_lt (Nat.lt_of_le_of_lt ih shorter)
  | case2 s => exact length_skipLines_le s

theorem length_lt_of_skipGaps {s r : List Char} {c : Char} (h : skipGaps s = c :: r) :
    r.length < s.length := by
  have gaps := length_skipGaps_le s
  rw [h] at gaps
  exact gaps

/-! ### Strings -/

def readCodePoint {n : Nat} : (digits value : Nat) → (s : List Char) → s.length < n → Read Char n
  | 0, value, s, h => if value.isValidChar then some ⟨Char.ofNat value, s, h⟩ else none
  | k + 1, value, c :: r, h =>
    match Hexadecimal.value? c with
    | some d => readCodePoint k (value * 16 + d) r (length_lt_of_succ_lt h)
    | none => none
  | _ + 1, _, [], _ => none

def readEscape {n : Nat} (s : List Char) (h : s.length < n) : Read Char n :=
  match s with
  | [] => none
  | c :: r =>
    have lt := length_lt_of_succ_lt h
    match c with
    | 'b' => some ⟨'\x08', r, lt⟩
    | 'f' => some ⟨'\x0c', r, lt⟩
    | 'n' => some ⟨'\n', r, lt⟩
    | 'r' => some ⟨'\r', r, lt⟩
    | 't' => some ⟨'\t', r, lt⟩
    | '"' => some ⟨'"', r, lt⟩
    | '\\' => some ⟨'\\', r, lt⟩
    | 'u' => readCodePoint 4 0 r lt
    | 'U' => readCodePoint 8 0 r lt
    | _ => none

def readBasic {n : Nat} (done : List Char) (s : List Char) (h : s.length < n) : Read String n :=
  match s with
  | [] => none
  | '"' :: r => some ⟨String.ofList done.reverse, r, length_lt_of_succ_lt h⟩
  | '\\' :: r =>
    match readEscape r (length_lt_succ _) with
    | none => none
    | some e =>
      have := e.shorter
      readBasic (e.value :: done) e.rest (by simp only [List.length_cons] at h; omega)
  | c :: r => if isPlain c then readBasic (c :: done) r (length_lt_of_succ_lt h) else none
termination_by s.length
decreasing_by
  · have := e.shorter
    simp only [List.length_cons]
    omega
  · exact length_lt_succ _

def readLiteral {n : Nat} (done : List Char) :
    (s : List Char) → s.length < n → Read String n
  | [], _ => none
  | c :: r, h =>
    if c = '\x27' then some ⟨String.ofList done.reverse, r, length_lt_of_succ_lt h⟩
    else if isPlain c then readLiteral (c :: done) r (length_lt_of_succ_lt h)
    else none

/-- Reads a string over several lines behind its opening quotes. Up to two quotes in a row
belong to the string, also right in front of the three that close it. With `escapes`, a
backslash at the end of a line joins it to the next text. -/
def readLines {n : Nat} (quote : Char) (escapes : Bool) (done : List Char) (s : List Char)
    (h : s.length < n) : Read String n :=
  match s with
  | [] => none
  | c :: r =>
    have lt := length_lt_of_succ_lt h
    if c = quote then
      match r with
      | d :: r₁ =>
        if d = quote then
          match r₁ with
          | e :: r₂ =>
            if e = quote then
              let extra := (r₂.takeWhile (· == quote)).length
              if extra ≤ 2 then
                some ⟨String.ofList (List.replicate extra quote ++ done).reverse, r₂.drop extra,
                  by simp only [List.length_drop]; simp only [List.length_cons] at lt; omega⟩
              else none
            else readLines quote escapes (quote :: quote :: done) (e :: r₂)
              (by simp only [List.length_cons] at lt ⊢; omega)
          | [] => none
        else readLines quote escapes (quote :: done) (d :: r₁) lt
      | [] => none
    else if escapes ∧ c = '\\' then
      match hn : afterNewline? (skipBlank r) with
      | some r₁ =>
        have := length_lt_of_afterNewline? hn
        have := length_skipBlank_le r
        have := length_skipLines_le r₁
        readLines quote escapes done (skipLines r₁) (by omega)
      | none =>
        match readEscape r (length_lt_succ _) with
        | none => none
        | some e =>
          have := e.shorter
          readLines quote escapes (e.value :: done) e.rest (by omega)
    else
      match hn : afterNewline? (c :: r) with
      | some r₁ =>
        have := length_lt_of_afterNewline? hn
        readLines quote escapes ('\n' :: done) r₁ (by omega)
      | none => if isPlain c then readLines quote escapes (c :: done) r lt else none
termination_by s.length
decreasing_by
  all_goals simp only [List.length_cons] at *
  all_goals omega

def readBlock {n : Nat} (quote : Char) (escapes : Bool) (s : List Char) (h : s.length < n) :
    Read String n :=
  match hn : afterNewline? s with
  | some r => readLines quote escapes [] r (Nat.lt_trans (length_lt_of_afterNewline? hn) h)
  | none => readLines quote escapes [] s h

def readText {n : Nat} (quote : Char) (s : List Char) (h : s.length < n) : Read String n :=
  let escapes := quote == '"'
  let line := if escapes then readBasic [] s h else readLiteral [] s h
  match s with
  | a :: b :: r =>
    if a = quote ∧ b = quote then
      readBlock quote escapes r (by simp only [List.length_cons] at h; omega)
    else line
  | _ => line

/-! ### Keys -/

def isBare (c : Char) : Bool :=
  ('a' ≤ c && c ≤ 'z') || ('A' ≤ c && c ≤ 'Z') || ('0' ≤ c && c ≤ '9') || c == '_' || c == '-'

def readKey {n : Nat} (s : List Char) (h : s.length ≤ n) : Read String n :=
  match s with
  | [] => none
  | c :: r =>
    if c = '"' then readBasic [] r h
    else if c = '\x27' then readLiteral [] r h
    else if isBare c then
      some ⟨String.ofList (c :: r.takeWhile isBare), r.dropWhile isBare,
        Nat.lt_of_le_of_lt (List.dropWhile_sublist isBare).length_le h⟩
    else none

/-- Reads a key of one or more parts with dots between them, and the blanks behind it. -/
def readPath {n : Nat} (done : List String) (s : List Char) (h : s.length ≤ n) :
    Read (List String) n :=
  match readKey (skipBlank s) (Nat.le_refl _) with
  | none => none
  | some k =>
    have := k.shorter
    have := length_skipBlank_le s
    match hr : skipBlank k.rest with
    | '.' :: r =>
      have := length_skipBlank_le k.rest
      readPath (k.value :: done) r (by rw [hr] at this; simp only [List.length_cons] at this; omega)
    | r =>
      have := length_skipBlank_le k.rest
      some ⟨(k.value :: done).reverse, r, by rw [← hr]; omega⟩
termination_by s.length
decreasing_by
  rw [hr] at this
  simp only [List.length_cons] at this
  omega

/-- How many parts a key must stay below, and how deep values may be nested. -/
def nestingLimit : Nat := 80

def readKeyPath {n : Nat} (s : List Char) (h : s.length ≤ n) : Read (List String) n :=
  match readPath [] s h with
  | none => none
  | some p => if p.value.length < nestingLimit then some p else none

end HotReload.Toml
