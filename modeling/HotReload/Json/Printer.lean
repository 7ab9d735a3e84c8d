import HotReload.Json.Value
import HotReload.Text.Hexadecimal

/-! The two written forms of JSON values: compact on one line, and indented by two spaces.
In a string only the quote, the backslash and characters below U+0020 are escaped, so no
control character ever stands in a written text but the line feeds of the indented form. -/
namespace HotReload.Json

def escapeChar (c : Char) : List Char :=
  match c with
  | '"' => ['\\', '"']
  | '\\' => ['\\', '\\']
  | '\x08' => ['\\', 'b']
  | '\x0c' => ['\\', 'f']
  | '\n' => ['\\', 'n']
  | '\r' => ['\\', 'r']
  | '\t' => ['\\', 't']
  | c =>
    if c.toNat < 0x20 then
      ['\\', 'u', '0', '0', Hexadecimal.digit (c.toNat / 16), Hexadecimal.digit (c.toNat % 16)]
    else [c]

def quoted (s : String) : List Char := '"' :: s.toList.flatMap escapeChar ++ ['"']

mutual

def Value.compact : Value → List Char
  | .null => "null".toList
  | .bool true => "true".toList
  | .bool false => "false".toList
  | .string s => quoted s
  | .array items => '[' :: compactItems items
  | .object members => '\x7b' :: compactMembers members

def compactItems : List Value → List Char
  | [] => [']']
  | [v] => v.compact ++ [']']
  | v :: w :: r => v.compact ++ ',' :: compactItems (w :: r)

def compactMembers : List (String × Value) → List Char
  | [] => ['\x7d']
  | [(k, v)] => quoted k ++ ':' :: v.compact ++ ['\x7d']
  | (k, v) :: m :: r => quoted k ++ ':' :: v.compact ++ ',' :: compactMembers (m :: r)

end

def newLine (depth : Nat) : List Char := '\n' :: List.replicate (2 * depth) ' '

mutual

/-- The indented text of a value whose first line is indented by `depth`. -/
def Value.pretty (depth : Nat) : Value → List Char
  | .null => "null".toList
  | .bool true => "true".toList
  | .bool false => "false".toList
  | .string s => quoted s
  | .array [] => ['[', ']']
  | .array (v :: r) =>
    '[' :: newLine (depth + 1) ++ v.pretty (depth + 1) ++ prettyItems depth r
  | .object [] => ['\x7b', '\x7d']
  | .object ((k, v) :: r) =>
    '\x7b' :: newLine (depth + 1) ++ quoted k ++ [':', ' '] ++ v.pretty (depth + 1) ++
      prettyMembers depth r

def prettyItems (depth : Nat) : List Value → List Char
  | [] => newLine depth ++ [']']
  | v :: r => ',' :: newLine (depth + 1) ++ v.pretty (depth + 1) ++ prettyItems depth r

def prettyMembers (depth : Nat) : List (String × Value) → List Char
  | [] => newLine depth ++ ['\x7d']
  | (k, v) :: r =>
    ',' :: newLine (depth + 1) ++ quoted k ++ [':', ' '] ++ v.pretty (depth + 1) ++
      prettyMembers depth r

end

def Value.compactText (v : Value) : String := String.ofList v.compact

def Value.prettyText (v : Value) : String := String.ofList (v.pretty 0)

end HotReload.Json
