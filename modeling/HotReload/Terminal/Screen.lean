import HotReload.Terminal.Output

/-! What a terminal shows of the texts that are written to it.
The terminal is as high and as wide as it has to be. Line feeds, the upward movement and the
two ways of clearing are followed; any other control sequence sets a colour and moves nothing. -/
namespace HotReload

abbrev Row := List Char

inductive Expects where
  | text
  | bracket
  | final (number : Nat)
deriving Repr, DecidableEq

structure Screen where
  /-- The rows above the one with the cursor, the lowest first. -/
  above : List Row
  line : Row
  column : Nat
  below : List Row
  expects : Expects
deriving Repr, DecidableEq

namespace Screen

def put (s : Screen) (c : Char) : Screen :=
  let left := s.line.take s.column
  let gap := List.replicate (s.column - left.length) ' '
  { s with line := left ++ gap ++ c :: s.line.drop (s.column + 1), column := s.column + 1 }

def lineFeed (s : Screen) : Screen :=
  { s with
    above := s.line :: s.above, line := s.below.headD [], column := 0, below := s.below.tail }

def up : Nat → Screen → Screen
  | 0, s => s
  | n + 1, s =>
    match s.above with
    | [] => s
    | row :: rows => up n { s with above := rows, line := row, below := s.line :: s.below }

def clearLine (s : Screen) : Screen := { s with line := s.line.take s.column }

def clearBelow (s : Screen) : Screen := { s.clearLine with below := [] }

def control (s : Screen) (number : Nat) (final : Char) : Screen :=
  if final = 'A' then up (max number 1) s
  else if final = 'K' ∧ number = 0 then s.clearLine
  else if final = 'J' ∧ number = 0 then s.clearBelow
  else s

def feed (s : Screen) (c : Char) : Screen :=
  match s.expects with
  | .text =>
    if c = '\x1b' then { s with expects := .bracket }
    else if c = '\n' then s.lineFeed
    else s.put c
  | .bracket => { s with expects := if c = '[' then .final 0 else .text }
  | .final number =>
    if c.isDigit then { s with expects := .final (10 * number + (c.toNat - '0'.toNat)) }
    else control { s with expects := .text } number c

def write (s : Screen) (text : String) : Screen := text.toList.foldl feed s

/-- The cursor stands at the end of `line`, the last row. -/
def page (above : List Row) (line : Row) : Screen := ⟨above, line, line.length, [], .text⟩

/-- Some rows with the cursor at the start of the row after them. -/
def ofRows (rows : List Row) : Screen := page rows.reverse []

def rows (s : Screen) : List Row := s.above.reverse ++ s.line :: s.below

end Screen

/-- The rows that a text ends on a screen that shows nothing else. -/
def rowsOf (text : String) : List Row := ((Screen.ofRows []).write text).above.reverse

end HotReload
