import HotReload.Json.Typed

/-! Reading records with known members.
A record is written as an object with its members in any order, unknown ones passed over,
or as an array of the member values in declared order. A draft collects what was read; when
the end is reached it is finished, which fails where a required member is missing. -/
namespace HotReload.Json

structure Field (δ : Type) where
  name : String
  read : δ → Reader δ

structure Record (δ α : Type) where
  fields : List (Field δ)
  blank : δ
  finish : δ → Option α

namespace Record

variable {δ α : Type}

/-- How a member is read, given the draft and the known names met so far. A known name must
not come twice. -/
def member (record : Record δ α) (state : δ × List String) (name : String) :
    Except Fault (Reader (δ × List String)) :=
  match record.fields.find? (·.name == name) with
  | none => .ok fun s => (skipValue s).map (Parsed.map fun _ => state)
  | some field =>
    if state.2.contains name then .error .mismatch
    else .ok fun s => (field.read state.1 s).map (Parsed.map fun draft => (draft, name :: state.2))

def close {n : Nat} (record : Record δ α) (p : Parsed δ n) : Except Fault (Parsed α n) :=
  match record.finish p.value with
  | none => .error .mismatch
  | some a => .ok (p.map fun _ => a)

/-- Reads the values of an array in the order of the fields. It may end early, but must not
go on behind the last field. -/
def readElements {n : Nat} (first : Bool) (draft : δ) (fields : List (Field δ))
    (s : List Char) (h : s.length ≤ n) : Except Fault (Parsed δ n) :=
  match hs : skipSpace s with
  | [] => .error .unfinished
  | c :: r =>
    have lt := length_lt_of_skipSpace hs
    if c = ']' then .ok ⟨draft, r, length_lt_of_le lt h⟩
    else
      match fields with
      | [] => .error .malformed
      | f :: fs =>
        if first then
          match f.read draft s with
          | .error e => .error e
          | .ok p => readElements false p.value fs p.rest (p.rest_le_of_le h)
        else if c = ',' then
          if (skipSpace r).head? = some ']' then .error .malformed
          else
            match f.read draft r with
            | .error e => .error e
            | .ok p => readElements false p.value fs p.rest (p.rest_le_of_lt lt h)
        else .error .malformed

def read (record : Record δ α) : Reader α := fun s =>
  match hs : skipSpace s with
  | [] => .error .unfinished
  | c :: r =>
    have le := length_le_of_skipSpace hs
    if c = '\x7b' then
      match readMembers record.member true (record.blank, []) r le with
      | .error e => .error e
      | .ok p => record.close (p.map Prod.fst)
    else if c = '[' then
      match readElements true record.blank record.fields r le with
      | .error e => .error e
      | .ok p => record.close p
    else .error (wrongType c r)

end Record
end HotReload.Json
