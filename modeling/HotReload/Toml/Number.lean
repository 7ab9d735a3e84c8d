import HotReload.Text.Numeral
import HotReload.Toml.Lexeme
import HotReload.Toml.Tree

namespace HotReload.Toml

open Numeral (isDigit)

def consumed (s rest : List Char) : String := String.ofList (s.take (s.length - rest.length))

def readChar {n : Nat} (c : Char) (s : List Char) (h : s.length ≤ n) : Read Unit n :=
  match s with
  | [] => none
  | d :: r => if d = c then some ⟨(), r, h⟩ else none

/-! ### Dates and times -/

def readDigit {n : Nat} (s : List Char) (h : s.length ≤ n) : Read Nat n :=
  match s with
  | [] => none
  | c :: r => if isDigit c then some ⟨c.toNat - 48, r, h⟩ else none

def readTwo {n : Nat} (s : List Char) (h : s.length ≤ n) : Read Nat n := do
  let a ← readDigit s h
  let b ← readDigit a.rest a.rest_le
  some (b.map (a.value * 10 + ·))

def readTwoUpTo {n : Nat} (limit : Nat) (s : List Char) (h : s.length ≤ n) : Read Nat n := do
  let v ← readTwo s h
  if v.value ≤ limit then some v else none

def isLeapYear (y : Nat) : Bool := y % 4 == 0 && (y % 100 != 0 || y % 400 == 0)

def daysInMonth (year month : Nat) : Nat :=
  match month with
  | 2 => if isLeapYear year then 29 else 28
  | 4 | 6 | 9 | 11 => 30
  | _ => 31

def readYear {n : Nat} (s : List Char) (h : s.length ≤ n) : Read Nat n := do
  let a ← readTwo s h
  let b ← readTwo a.rest a.rest_le
  let dash ← readChar '-' b.rest b.rest_le
  some (dash.map fun _ => a.value * 100 + b.value)

def readHour {n : Nat} (s : List Char) (h : s.length ≤ n) : Read Nat n := do
  let hour ← readTwoUpTo 23 s h
  let colon ← readChar ':' hour.rest hour.rest_le
  some (colon.map fun _ => hour.value)

def readMonthDay {n : Nat} (year : Nat) (s : List Char) (h : s.length ≤ n) : Read Unit n := do
  let month ← readTwoUpTo 12 s h
  let dash ← readChar '-' month.rest month.rest_le
  let day ← readTwo dash.rest dash.rest_le
  if 1 ≤ month.value ∧ 1 ≤ day.value ∧ day.value ≤ daysInMonth year month.value then
    some (day.map fun _ => ())
  else none

def skipFraction {n : Nat} (s : List Char) (h : s.length < n) : Parsed Unit n :=
  match s with
  | '.' :: c :: r =>
    if isDigit c then
      ⟨(), r.dropWhile isDigit, by
        have := (List.dropWhile_sublist isDigit (l := r)).length_le
        simp only [List.length_cons] at h
        omega⟩
    else ⟨(), '.' :: c :: r, h⟩
  | s => ⟨(), s, h⟩

def readMinuteSecond {n : Nat} (s : List Char) (h : s.length ≤ n) : Read Unit n := do
  let minute ← readTwoUpTo 59 s h
  let colon ← readChar ':' minute.rest minute.rest_le
  let second ← readTwoUpTo 60 colon.rest colon.rest_le
  some (skipFraction second.rest second.shorter)

def readOffset {n : Nat} (s : List Char) (h : s.length < n) : Read Unit n :=
  match s with
  | [] => some ⟨(), [], h⟩
  | c :: r =>
    if c = 'Z' ∨ c = 'z' then some ⟨(), r, length_lt_of_succ_lt h⟩
    else if c = '+' ∨ c = '-' then do
      let hour ← readHour r (length_le_of_succ_lt h)
      let minute ← readTwoUpTo 59 hour.rest hour.rest_le
      some (minute.map fun _ => ())
    else some ⟨(), c :: r, h⟩

def readTimeOfDate {n : Nat} (s : List Char) (h : s.length < n) : Read Unit n :=
  match s with
  | [] => some ⟨(), [], h⟩
  | c :: r =>
    let hour : Read Nat n :=
      if c = 'T' ∨ c = 't' ∨ c = ' ' then readHour r (length_le_of_succ_lt h)
      else none
    match hour with
    | none => some ⟨(), c :: r, h⟩
    | some hour => do
      let time ← readMinuteSecond hour.rest hour.rest_le
      readOffset time.rest time.shorter

/-- Reads a date, a time or both. The outer option tells whether there is one, the inner one
whether it is right. -/
def readDatetime {n : Nat} (s : List Char) (h : s.length ≤ n) : Option (Read Node n) :=
  match readYear s h with
  | some year => some do
    let date ← readMonthDay year.value year.rest year.rest_le
    let time ← readTimeOfDate date.rest date.shorter
    some (time.map fun _ => .datetime (consumed s time.rest))
  | none =>
    match readHour s h with
    | some hour => some do
      let time ← readMinuteSecond hour.rest hour.rest_le
      some (time.map fun _ => .datetime (consumed s time.rest))
    | none => none

/-! ### Numbers -/

def readFurther {n : Nat} (isOne : Char → Bool) (done : List Char) :
    (s : List Char) → s.length < n → Read (List Char) n
  | [], h => some ⟨done.reverse, [], h⟩
  | [c], h =>
    if isOne c then some ⟨(c :: done).reverse, [], length_lt_of_succ_lt h⟩
    else if c = '_' then none
    else some ⟨done.reverse, [c], h⟩
  | c :: d :: r, h =>
    if isOne c then readFurther isOne (c :: done) (d :: r) (length_lt_of_succ_lt h)
    else if c = '_' then
      if isOne d then
        readFurther isOne (d :: done) r (by simp only [List.length_cons] at h; omega)
      else none
    else some ⟨done.reverse, c :: d :: r, h⟩

def readDigits {n : Nat} (isOne : Char → Bool) (s : List Char) (h : s.length ≤ n) :
    Read (List Char) n :=
  match s with
  | [] => none
  | c :: r => if isOne c then readFurther isOne [c] r h else none

def readDecimal {n : Nat} (s : List Char) (h : s.length ≤ n) : Read (List Char) n :=
  match s with
  | '0' :: r => some ⟨['0'], r, h⟩
  | s => readDigits isDigit s h

def valueOf (base : Nat) (digits : List Char) : Nat :=
  digits.foldl (fun v c => v * base + (Hexadecimal.value? c).getD 0) 0

def fitting {n : Nat} (v : Int) (p : Parsed (List Char) n) : Read Node n :=
  if -0x8000000000000000 ≤ v ∧ v < 0x8000000000000000 then some (p.map fun _ => .integer v)
  else none

/-- Reads the digits of an integer to a base that its first two characters name. -/
def readBased {n : Nat} (base : Nat) (s : List Char) (h : s.length ≤ n) : Read Node n := do
  let ds ← readDigits (fun c => (Hexadecimal.value? c).any (· < base)) s h
  fitting (valueOf base ds.value) ds

def readExponent {n : Nat} (s : List Char) (h : s.length ≤ n) : Read Int n :=
  match s with
  | '-' :: r =>
    (readDigits isDigit r (length_le_of_succ_le h)).map
      (Parsed.map fun ds => -(Numeral.exponentOf ds : Int))
  | '+' :: r =>
    (readDigits isDigit r (length_le_of_succ_le h)).map
      (Parsed.map fun ds => (Numeral.exponentOf ds : Int))
  | s => (readDigits isDigit s h).map (Parsed.map fun ds => (Numeral.exponentOf ds : Int))

def isExponentMark (c : Char) : Bool := c == 'e' || c == 'E'

def readFraction {n : Nat} (s : List Char) (h : s.length < n) : Read (Option (List Char)) n :=
  match s with
  | '.' :: r =>
    (readDigits isDigit r (length_le_of_succ_lt h)).map (Parsed.map some)
  | s => some ⟨none, s, h⟩

def readPower {n : Nat} (s : List Char) (h : s.length < n) : Read (Option Int) n :=
  match s with
  | c :: r =>
    if isExponentMark c then
      (readExponent r (length_le_of_succ_lt h)).map (Parsed.map some)
    else some ⟨none, c :: r, h⟩
  | [] => some ⟨none, [], h⟩

/-- Reads a number behind its sign; `s` is its text with the sign. With a fraction or an
exponent it is a float, which must not round to positive infinity. -/
def readUnsigned {n : Nat} (s : List Char) (negative : Bool) (t : List Char)
    (h : t.length ≤ n) : Read Node n := do
  let whole ← readDecimal t h
  let fraction ← readFraction whole.rest whole.shorter
  let power ← readPower fraction.rest fraction.shorter
  if fraction.value.isNone ∧ power.value.isNone then
    let v : Int := valueOf 10 whole.value
    fitting (if negative then -v else v) whole
  else
    let digits := fraction.value.getD []
    let x : Numeral := ⟨whole.value ++ digits, power.value.getD 0 - digits.length⟩
    if !negative && x.isTooLarge then none
    else some (power.map fun _ => .float (consumed s power.rest))

def readSpecial {n : Nat} (s : List Char) (h : s.length ≤ n) : Read Node n :=
  match s with
  | 'i' :: 'n' :: 'f' :: r => some ⟨.float "inf", r, by simp only [List.length_cons] at h; omega⟩
  | 'n' :: 'a' :: 'n' :: r => some ⟨.float "nan", r, by simp only [List.length_cons] at h; omega⟩
  | _ => none

def readNumber {n : Nat} (s : List Char) (h : s.length ≤ n) : Read Node n :=
  match s with
  | '0' :: 'x' :: r => readBased 16 r (by simp only [List.length_cons] at h; omega)
  | '0' :: 'o' :: r => readBased 8 r (by simp only [List.length_cons] at h; omega)
  | '0' :: 'b' :: r => readBased 2 r (by simp only [List.length_cons] at h; omega)
  | c :: r =>
    if c = '+' ∨ c = '-' then
      (readUnsigned (c :: r) (c == '-') r (length_le_of_succ_le h)) <|>
        readSpecial r (length_le_of_succ_le h)
    else readUnsigned (c :: r) false (c :: r) h <|> readSpecial (c :: r) h
  | [] => none

end HotReload.Toml
