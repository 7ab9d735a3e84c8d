import HotReload.Json.Grammar
import HotReload.Json.Skip

/-! The grammar of JSON values by form alone.
A member that no record knows may hold any value: numbers of every size, strings in which a `\u`
stands for no character, arrays and objects nested to every depth. Of such a value only the end
matters. -/
namespace HotReload.Json

open Numeral (isDigit)

/-- The rest of a string literal behind its opening quote, whatever it stands for. -/
inductive Literal : List Char → List Char → Prop where
  | close {rest : List Char} : Literal ('"' :: rest) rest
  | plain {c : Char} {text rest : List Char} (not_quote : c ≠ '"') (not_backslash : c ≠ '\\')
      (shown : 0x20 ≤ c.toNat) (later : Literal text rest) : Literal (c :: text) rest
  | simple {c : Char} {text rest : List Char} (known : (simpleEscape? c).isSome = true)
      (later : Literal text rest) : Literal ('\\' :: c :: text) rest
  | code {u : Nat} {text next rest : List Char} (digits : Hex4 text u next)
      (later : Literal next rest) : Literal ('\\' :: 'u' :: text) rest

def AreDigits (ds : List Char) : Prop := ds ≠ [] ∧ ∀ d ∈ ds, isDigit d = true

def IsWhole (ds : List Char) : Prop := ds = ['0'] ∨ AreDigits ds ∧ ds.head? ≠ some '0'

def IsFraction (text : List Char) : Prop := text = [] ∨ ∃ ds, AreDigits ds ∧ text = '.' :: ds

def IsPower (text : List Char) : Prop :=
  text = [] ∨ ∃ e sign ds, (e = 'e' ∨ e = 'E') ∧ (sign = [] ∨ sign = ['-'] ∨ sign = ['+']) ∧
    AreDigits ds ∧ text = e :: (sign ++ ds)

/-- A number without its sign, and what stands behind it. It takes all that could belong to it:
whatever ends a value in a JSON text also ends the number. -/
def UnsignedNumber (text rest : List Char) : Prop :=
  ∃ whole fraction power, IsWhole whole ∧ IsFraction fraction ∧ IsPower power ∧
    text = whole ++ (fraction ++ (power ++ rest)) ∧
    (∀ c, rest.head? = some c → isDigit c = false) ∧
    (power = [] → rest.head? ≠ some 'e' ∧ rest.head? ≠ some 'E') ∧
    (fraction = [] → power = [] → rest.head? ≠ some '.')

def Number (text rest : List Char) : Prop :=
  UnsignedNumber text rest ∨ ∃ unsigned, UnsignedNumber unsigned rest ∧ text = '-' :: unsigned

def Bracket.opening : Bracket → Char
  | .square => '['
  | .curly => '\x7b'

mutual

inductive WellFormed : List Char → List Char → Prop where
  | null {rest : List Char} : WellFormed ("null".toList ++ rest) rest
  | true {rest : List Char} : WellFormed ("true".toList ++ rest) rest
  | false {rest : List Char} : WellFormed ("false".toList ++ rest) rest
  | number {text rest : List Char} (number : Number text rest) : WellFormed text rest
  | string {text rest : List Char} (literal : Literal text rest) : WellFormed ('"' :: text) rest
  | bracket {b : Bracket} {text rest : List Char} (inside : Inside b text rest) :
      WellFormed (b.opening :: text) rest

inductive Inside : Bracket → List Char → List Char → Prop where
  | none {b : Bracket} {text rest : List Char} (close : Spaced text (b.closing :: rest)) :
      Inside b text rest
  | some {b : Bracket} {text next rest : List Char} (first : Entry b text next)
      (further : FurtherInside b next rest) : Inside b text rest

inductive FurtherInside : Bracket → List Char → List Char → Prop where
  | none {b : Bracket} {text rest : List Char} (close : Spaced text (b.closing :: rest)) :
      FurtherInside b text rest
  | some {b : Bracket} {text behind next rest : List Char} (comma : Spaced text (',' :: behind))
      (first : Entry b behind next) (further : FurtherInside b next rest) :
      FurtherInside b text rest

inductive Entry : Bracket → List Char → List Char → Prop where
  | item {text value rest : List Char} (space : Spaced text value)
      (formed : WellFormed value rest) : Entry .square text rest
  | member {text name behind gap value rest : List Char} (before : Spaced text ('"' :: name))
      (literal : Literal name behind) (colon : Spaced behind (':' :: gap))
      (space : Spaced gap value) (formed : WellFormed value rest) : Entry .curly text rest

end

end HotReload.Json
