import HotReload.Json.Reader
import HotReload.Json.Value

/-! The grammar of JSON texts, without a reader.
A value has many texts: white space may stand around every token, and a character of a string
may be escaped in several ways. Each relation takes a text, what stands at its front, and the
rest behind that. -/
namespace HotReload.Json

def Hex4 (text : List Char) (u : Nat) (rest : List Char) : Prop :=
  ∃ a b c d w x y z, text = a :: b :: c :: d :: rest ∧ Hexadecimal.value? a = some w ∧
    Hexadecimal.value? b = some x ∧ Hexadecimal.value? c = some y ∧
    Hexadecimal.value? d = some z ∧ u = ((w * 16 + x) * 16 + y) * 16 + z

abbrev IsHighHalf (u : Nat) : Prop := 0xD800 ≤ u ∧ u ≤ 0xDBFF

abbrev IsLowHalf (u : Nat) : Prop := 0xDC00 ≤ u ∧ u ≤ 0xDFFF

inductive Escape : List Char → Char → List Char → Prop where
  | simple {e c : Char} {rest : List Char} (known : simpleEscape? e = some c) :
      Escape (e :: rest) c rest
  | code {u : Nat} {text rest : List Char} (digits : Hex4 text u rest)
      (not_high : ¬ IsHighHalf u) (not_low : ¬ IsLowHalf u) :
      Escape ('u' :: text) (Char.ofNat u) rest
  | pair {u v : Nat} {text next rest : List Char} (first : Hex4 text u ('\\' :: 'u' :: next))
      (high : IsHighHalf u) (second : Hex4 next v rest) (low : IsLowHalf v) :
      Escape ('u' :: text) (Char.ofNat (0x10000 + (u - 0xD800) * 1024 + (v - 0xDC00))) rest

/-- The rest of a string literal behind its opening quote. -/
inductive Spells : List Char → List Char → List Char → Prop where
  | close {rest : List Char} : Spells ('"' :: rest) [] rest
  | plain {c : Char} {text cs rest : List Char} (not_quote : c ≠ '"') (not_backslash : c ≠ '\\')
      (shown : 0x20 ≤ c.toNat) (later : Spells text cs rest) : Spells (c :: text) (c :: cs) rest
  | escape {c : Char} {text next cs rest : List Char} (escape : Escape text c next)
      (later : Spells next cs rest) : Spells ('\\' :: text) (c :: cs) rest

def Spaced (text rest : List Char) : Prop :=
  ∃ space, (∀ c ∈ space, isSpace c) ∧ text = space ++ rest

theorem spaced_self (s : List Char) : Spaced s s := ⟨[], List.forall_mem_nil _, rfl⟩

mutual

inductive Written : List Char → Value → List Char → Prop where
  | null {rest : List Char} : Written ("null".toList ++ rest) .null rest
  | true {rest : List Char} : Written ("true".toList ++ rest) (.bool true) rest
  | false {rest : List Char} : Written ("false".toList ++ rest) (.bool false) rest
  | string {text rest : List Char} {s : String} (literal : Spells text s.toList rest) :
      Written ('"' :: text) (.string s) rest
  | array {text rest : List Char} {vs : List Value} (items : Items text vs rest) :
      Written ('[' :: text) (.array vs) rest
  | object {text rest : List Char} {ms : List (String × Value)} (members : Members text ms rest) :
      Written ('\x7b' :: text) (.object ms) rest

inductive Items : List Char → List Value → List Char → Prop where
  | none {text rest : List Char} (close : Spaced text (']' :: rest)) : Items text [] rest
  | some {text item next rest : List Char} {v : Value} {vs : List Value} (space : Spaced text item)
      (first : Written item v next) (further : FurtherItems next vs rest) :
      Items text (v :: vs) rest

inductive FurtherItems : List Char → List Value → List Char → Prop where
  | none {text rest : List Char} (close : Spaced text (']' :: rest)) : FurtherItems text [] rest
  | some {text behind item next rest : List Char} {v : Value} {vs : List Value}
      (comma : Spaced text (',' :: behind)) (space : Spaced behind item)
      (first : Written item v next) (further : FurtherItems next vs rest) :
      FurtherItems text (v :: vs) rest

inductive Members : List Char → List (String × Value) → List Char → Prop where
  | none {text rest : List Char} (close : Spaced text ('\x7d' :: rest)) : Members text [] rest
  | some {text next rest : List Char} {m : String × Value} {ms : List (String × Value)}
      (first : Member text m next) (further : FurtherMembers next ms rest) :
      Members text (m :: ms) rest

inductive FurtherMembers : List Char → List (String × Value) → List Char → Prop where
  | none {text rest : List Char} (close : Spaced text ('\x7d' :: rest)) :
      FurtherMembers text [] rest
  | some {text behind next rest : List Char} {m : String × Value} {ms : List (String × Value)}
      (comma : Spaced text (',' :: behind)) (first : Member behind m next)
      (further : FurtherMembers next ms rest) : FurtherMembers text (m :: ms) rest

inductive Member : List Char → String × Value → List Char → Prop where
  | mk {text name behind gap value rest : List Char} {k : String} {v : Value}
      (before : Spaced text ('"' :: name)) (literal : Spells name k.toList behind)
      (colon : Spaced behind (':' :: gap)) (space : Spaced gap value)
      (written : Written value v rest) : Member text (k, v) rest

end

/-- The text of a value with white space around it and nothing else. -/
def IsText (text : List Char) (v : Value) : Prop :=
  ∃ front back, Spaced text front ∧ Written front v back ∧ Spaced back []

end HotReload.Json
