import HotReload.Json.Reader
import HotReload.Text.Numeral

/-! JSON numbers.
No record has a number in it, so numbers are only recognised: inside unknown members, where
their form alone counts, and where a value of another type belongs. There a number that no
double can hold is malformed, while any other is a mismatch. -/
namespace HotReload.Json

open Numeral (isDigit exponentOf)

theorem length_dropDigits_le (s : List Char) : (s.dropWhile isDigit).length ≤ s.length :=
  (List.dropWhile_sublist isDigit).length_le

/-- Reads one or more digits. `cut` is the fault of a text that ends instead. -/
def readDigits {n : Nat} (cut : Fault) (s : List Char) (h : s.length ≤ n) :
    Except Fault (Parsed Digits n) :=
  match s with
  | [] => .error cut
  | c :: r =>
    if isDigit c then
      .ok ⟨c :: r.takeWhile isDigit, r.dropWhile isDigit,
        Nat.lt_of_le_of_lt (length_dropDigits_le r) h⟩
    else .error .malformed

def readInteger {n : Nat} (cut : Fault) (s : List Char) (h : s.length ≤ n) :
    Except Fault (Parsed Digits n) :=
  match s with
  | '0' :: c :: r => if isDigit c then .error .malformed else .ok ⟨['0'], c :: r, h⟩
  | s => readDigits cut s h

def readFraction {n : Nat} (cut : Fault) (s : List Char) (h : s.length < n) :
    Except Fault (Parsed Digits n) :=
  match s with
  | '.' :: r => readDigits cut r (length_le_of_succ_lt h)
  | s => .ok ⟨[], s, h⟩

def readExponent {n : Nat} (cut : Fault) (s : List Char) (h : s.length < n) :
    Except Fault (Parsed Int n) :=
  match s with
  | c :: r =>
    if c = 'e' ∨ c = 'E' then
      match r with
      | '-' :: r =>
        (readDigits cut r (by simp only [List.length_cons] at h; omega)).map
          (Parsed.map fun ds => -(exponentOf ds : Int))
      | '+' :: r =>
        (readDigits cut r (by simp only [List.length_cons] at h; omega)).map
          (Parsed.map fun ds => (exponentOf ds : Int))
      | r =>
        (readDigits cut r (length_le_of_succ_lt h)).map
          (Parsed.map fun ds => (exponentOf ds : Int))
    else .ok ⟨0, c :: r, h⟩
  | [] => .ok ⟨0, [], h⟩

def readUnsigned {n : Nat} (cut : Fault) (s : List Char) (h : s.length ≤ n) :
    Except Fault (Parsed Numeral n) :=
  match readInteger cut s h with
  | .error e => .error e
  | .ok whole =>
    match readFraction cut whole.rest whole.shorter with
    | .error e => .error e
    | .ok fraction =>
      match readExponent cut fraction.rest fraction.shorter with
      | .error e => .error e
      | .ok power =>
        .ok (power.map fun e => ⟨whole.value ++ fraction.value, e - fraction.value.length⟩)

def readNumber {n : Nat} (cut : Fault) (s : List Char) (h : s.length ≤ n) :
    Except Fault (Parsed Numeral n) :=
  match s with
  | '-' :: r => readUnsigned cut r (length_le_of_succ_le h)
  | s => readUnsigned cut s h

end HotReload.Json
