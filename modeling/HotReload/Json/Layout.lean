import HotReload.Json.WellFormed
import Mathlib.Data.List.Forall2

/-! Typed values as they stand in a text.
An array is cut into its items and an object into its members, each with the place where its value
begins and the place where it ends. What the values stand for is said by a form for each type. -/
namespace HotReload.Json

/-- What stands at the front of a text for a value, and what is left behind it. -/
abbrev Form (α : Type) := List Char → α → List Char → Prop

/-- A text that begins with a value, and what stands behind that value. -/
structure Part where
  front : List Char
  back : List Char

section Cutting

variable {κ : Type}

/-- The entries behind an entry and the closing bracket. What stands in front of a value is its
lead. -/
inductive FurtherEntries (closing : Char) (lead : Form κ) :
    List Char → List (κ × Part) → List Char → Prop where
  | none {text rest : List Char} (close : Spaced text (closing :: rest)) :
      FurtherEntries closing lead text [] rest
  | some {text behind rest : List Char} {k : κ} {part : Part} {entries : List (κ × Part)}
      (comma : Spaced text (',' :: behind)) (first : lead behind k part.front)
      (further : FurtherEntries closing lead part.back entries rest) :
      FurtherEntries closing lead text ((k, part) :: entries) rest

inductive Entries (closing : Char) (lead : Form κ) :
    List Char → List (κ × Part) → List Char → Prop where
  | none {text rest : List Char} (close : Spaced text (closing :: rest)) :
      Entries closing lead text [] rest
  | some {text rest : List Char} {k : κ} {part : Part} {entries : List (κ × Part)}
      (first : lead text k part.front)
      (further : FurtherEntries closing lead part.back entries rest) :
      Entries closing lead text ((k, part) :: entries) rest

def Bare : Form Unit := fun text _ value => Spaced text value

def Label : Form String := fun text k value =>
  ∃ name behind gap, Spaced text ('"' :: name) ∧ Spells name k.toList behind ∧
    Spaced behind (':' :: gap) ∧ Spaced gap value

def ArrayParts : Form (List Part) := fun text parts rest =>
  ∃ body, text = '[' :: body ∧ Entries ']' Bare body (parts.map fun part => ((), part)) rest

def ObjectParts : Form (List (String × Part)) := fun text members rest =>
  ∃ body, text = '\x7b' :: body ∧ Entries '\x7d' Label body members rest

/-- A record is written as an object, or as an array that has the values of the first members in
the order of `names`. -/
def RecordParts (names : List String) : Form (List (String × Part)) := fun text members rest =>
  ObjectParts text members rest ∨
    ∃ parts, parts.length ≤ names.length ∧ ArrayParts text parts rest ∧ members = names.zip parts

end Cutting

section Types

variable {α : Type}

def stringForm : Form String := fun text s rest => Written text (.string s) rest

def boolForm : Form Bool := fun text b rest => Written text (.bool b) rest

def optionalForm (form : Form α) : Form (Option α) := fun text v rest =>
  v = none ∧ Written text .null rest ∨ ∃ a, v = some a ∧ form text a rest

def listForm (form : Form α) : Form (List α) := fun text as rest =>
  ∃ parts, ArrayParts text parts rest ∧
    List.Forall₂ (fun part a => form part.front a part.back) parts as

def pairsForm (form : Form α) : Form (List (String × α)) := fun text pairs rest =>
  ∃ members, ObjectParts text members rest ∧
    List.Forall₂ (fun m p => m.1 = p.1 ∧ form m.2.front p.2 m.2.back) members pairs

end Types

section Members

variable {α : Type} {members : List (String × Part)}

def Gives (members : List (String × Part)) (name : String) (form : Form α) (a : α) : Prop :=
  ∃ part, members.filter (·.1 == name) = [(name, part)] ∧ form part.front a part.back

/-- No member has this name, or one has and it has the value. The value is the default one where
there is none. -/
def MayGive (members : List (String × Part)) (name : String) (form : Form α) (absent a : α) :
    Prop :=
  members.filter (·.1 == name) = [] ∧ a = absent ∨ Gives members name form a

def OthersFormed (names : List String) (members : List (String × Part)) : Prop :=
  ∀ m ∈ members, m.1 ∉ names → WellFormed m.2.front m.2.back

def AllFormed {κ : Type} (entries : List (κ × Part)) : Prop :=
  ∀ e ∈ entries, WellFormed e.2.front e.2.back

def HasMember (names : List String) (record : Part) (name : String) (value : Part) : Prop :=
  ∃ members, RecordParts names record.front members record.back ∧ AllFormed members ∧
    (name, value) ∈ members

end Members

def IsTextOf {α : Type} (form : Form α) (text : List Char) (a : α) : Prop :=
  ∃ front back, Spaced text front ∧ form front a back ∧ Spaced back []

end HotReload.Json
