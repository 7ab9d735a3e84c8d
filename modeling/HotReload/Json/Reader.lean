import HotReload.Text.Hexadecimal
import HotReload.Text.Parsed

/-! Reading JSON text from left to right.
A reader takes what it needs from the front of the text and hands back the rest, which is
shorter: each reader consumes something, and so every loop over readers ends. The first
fault that is met decides the outcome. -/
namespace HotReload.Json

inductive Fault where
  | unfinished
  | malformed
  /-- A value is of the wrong type, a member is missing or stands twice. -/
  | mismatch
deriving Repr, DecidableEq

def Fault.message : Fault → String
  | .unfinished => "the text ends inside a value"
  | .malformed => "the text is not valid JSON"
  | .mismatch => "a value does not have the expected type or members"

abbrev Reader (α : Type) := (s : List Char) → Except Fault (Parsed α s.length)

def isSpace (c : Char) : Bool := c == ' ' || c == '\n' || c == '\t' || c == '\r'

def skipSpace (s : List Char) : List Char := s.dropWhile isSpace

theorem length_skipSpace_le (s : List Char) : (skipSpace s).length ≤ s.length :=
  (List.dropWhile_sublist isSpace).length_le

theorem length_lt_of_skipSpace {s r : List Char} {c : Char} (h : skipSpace s = c :: r) :
    r.length < s.length := by
  have := length_skipSpace_le s
  rw [h] at this
  exact this

theorem length_le_of_skipSpace {s r : List Char} {c : Char} (h : skipSpace s = c :: r) :
    r.length ≤ s.length := Nat.le_of_lt (length_lt_of_skipSpace h)

def readWord {α : Type} (value : α) {n : Nat} :
    (word s : List Char) → s.length < n → Except Fault (Parsed α n)
  | [], s, h => .ok ⟨value, s, h⟩
  | _ :: _, [], _ => .error .unfinished
  | w :: ws, c :: r, h =>
    if c = w then readWord value ws r (length_lt_of_succ_lt h) else .error .malformed

/-- Reads four hexadecimal digits. A text of fewer than four bytes is cut off. -/
def readHex4 {n : Nat} (s : List Char) (h : s.length < n) : Except Fault (Parsed Nat n) :=
  match s with
  | a :: b :: c :: d :: r =>
    match Hexadecimal.value? a, Hexadecimal.value? b,
        Hexadecimal.value? c, Hexadecimal.value? d with
    | some a, some b, some c, some d =>
      .ok ⟨((a * 16 + b) * 16 + c) * 16 + d, r, by simp only [List.length_cons] at h; omega⟩
    | _, _, _, _ => .error .malformed
  | short =>
    if short.foldl (fun size c => size + c.utf8Size) 0 < 4 then .error .unfinished
    else .error .malformed

def simpleEscape? (c : Char) : Option Char :=
  match c with
  | '"' => some '"'
  | '\\' => some '\\'
  | '/' => some '/'
  | 'b' => some '\x08'
  | 'f' => some '\x0c'
  | 'n' => some '\n'
  | 'r' => some '\r'
  | 't' => some '\t'
  | _ => none

def readLowHalf {n : Nat} (high : Nat) (s : List Char) (h : s.length < n) :
    Except Fault (Parsed Char n) :=
  match s with
  | [] => .error .unfinished
  | '\\' :: [] => .error .unfinished
  | '\\' :: 'u' :: r =>
    match readHex4 r (n := n) (by simp only [List.length_cons] at h; omega) with
    | .error e => .error e
    | .ok low =>
      if 0xDC00 ≤ low.value ∧ low.value ≤ 0xDFFF then
        .ok (low.map fun v => Char.ofNat (0x10000 + (high - 0xD800) * 1024 + (v - 0xDC00)))
      else .error .malformed
  | _ => .error .malformed

/-- Reads what stands behind a backslash in a string. Surrogates must come in pairs. -/
def readEscape {n : Nat} (s : List Char) (h : s.length < n) : Except Fault (Parsed Char n) :=
  match s with
  | [] => .error .unfinished
  | 'u' :: r =>
    match readHex4 r (n := n) (length_lt_of_succ_lt h) with
    | .error e => .error e
    | .ok u =>
      if 0xD800 ≤ u.value ∧ u.value ≤ 0xDBFF then readLowHalf u.value u.rest u.shorter
      else if 0xDC00 ≤ u.value ∧ u.value ≤ 0xDFFF then .error .malformed
      else .ok (u.map Char.ofNat)
  | c :: r =>
    match simpleEscape? c with
    | some e => .ok ⟨e, r, length_lt_of_succ_lt h⟩
    | none => .error .malformed

/-- Reads a string behind its opening quote; `done` holds its characters so far, the last
one first. -/
def readQuoted {n : Nat} (done : List Char) (s : List Char) (h : s.length < n) :
    Except Fault (Parsed String n) :=
  match s with
  | [] => .error .unfinished
  | '"' :: r => .ok ⟨String.ofList done.reverse, r, length_lt_of_succ_lt h⟩
  | '\\' :: r =>
    match readEscape r (length_lt_succ _) with
    | .error e => .error e
    | .ok c => readQuoted (c.value :: done) c.rest
        (by have := c.shorter; simp only [List.length_cons] at h; omega)
  | c :: r =>
    if c.toNat < 0x20 then .error .malformed
    else readQuoted (c :: done) r (length_lt_of_succ_lt h)
termination_by s.length
decreasing_by
  · have := c.shorter
    simp only [List.length_cons]
    omega
  · exact length_lt_succ _

end HotReload.Json
