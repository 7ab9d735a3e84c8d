import HotReload.Path.Basic
import HotReload.Text.Shown

namespace HotReload.Path

/-- A number in hexadecimal digits; `ten` is the digit behind the nine. -/
def hexText (ten : Char) (n : Nat) : String :=
  String.ofList ((Nat.toDigits 16 n).map fun c =>
    if 'a' ≤ c then Char.ofNat (c.toNat - 'a'.toNat + ten.toNat) else c)

def quotedByte (b : UInt8) : String :=
  "\\x" ++ (if b.toNat < 16 then "0" else "") ++ hexText 'A' b.toNat

def quotedChar (c : Char) : String :=
  match c with
  | '\x00' => "\\0"
  | '\t' => "\\t"
  | '\n' => "\\n"
  | '\r' => "\\r"
  | '"' => "\\\""
  | '\x27' => "\\'"
  | '\\' => "\\\\"
  | c =>
    if Text.isShown c then c.toString else "\\u\x7b" ++ hexText 'a' c.toNat ++ "\x7d"

def quotedBytes (bytes : List UInt8) : String :=
  match bytes with
  | [] => ""
  | b :: r =>
    match Utf8.pieceAfter b r with
    | (.char c, _) => quotedChar c ++ quotedBytes (Utf8.pieceAfter b r).2
    | (.broken, rest) =>
      String.join ((b :: r.take (r.length - rest.length)).map quotedByte) ++
        quotedBytes (Utf8.pieceAfter b r).2
termination_by bytes.length
decreasing_by all_goals exact Utf8.length_pieceAfter_lt b r

def quoted (p : Path) : String := "\"" ++ quotedBytes p.bytes ++ "\""

def quotedList (ps : List Path) : String := "[" ++ ", ".intercalate (ps.map quoted) ++ "]"

end HotReload.Path
