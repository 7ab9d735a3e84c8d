import HotReload.Terminal.Ansi
import HotReload.Terminal.Output

/-! The status block of watch mode.
Each status overwrites the one before it, so that one block stays on the screen. Whoever
prints anything else below the block has to detach it first; the block is then left alone
and the next status begins a new one. -/
namespace HotReload

/-- The rows that the next status overwrites; none when the block is detached. -/
structure StatusBlock where
  lastLines : Nat
deriving Repr, DecidableEq

namespace StatusBlock

def twoDigits (n : Nat) : String := if n < 10 then s!"0{n}" else toString n

def clock (seconds : Nat) : String :=
  let hours := twoDigits (seconds / 3600 % 24)
  let minutes := twoDigits (seconds / 60 % 60)
  s!"{hours}:{minutes}:{twoDigits (seconds % 60)}"

def lineCount (message : String) : Nat := message.toList.count '\n' + 1

def fresh : StatusBlock := ⟨0⟩

/-- The movement that takes the cursor to the start of the block and clears it. The row
count of a movement is a 16-bit number. -/
def erase (b : StatusBlock) : String :=
  if 0 < b.lastLines then Ansi.cursorUp (b.lastLines % 65536) ++ Ansi.clearBelow else ""

def head (seconds : Nat) (symbol : String) : String :=
  let stamp := Ansi.dim.paint s!"[{clock seconds}]"
  if symbol.isEmpty then stamp else s!"{stamp} {symbol}"

def body (seconds : Nat) (symbol message : String) : String :=
  s!"{head seconds symbol} {message}\n"

def display (b : StatusBlock) (seconds : Nat) (symbol message : String) :
    StatusBlock × Output :=
  (⟨lineCount message⟩, .err (b.erase ++ body seconds symbol message))

def success (b : StatusBlock) (seconds : Nat) (message : String) : StatusBlock × Output :=
  b.display seconds (Ansi.green.paint "✓") message

def unchanged (b : StatusBlock) (seconds : Nat) (message : String) : StatusBlock × Output :=
  b.display seconds "" (Ansi.dim.paint message)

def compose (summary detail : String) : String :=
  if detail.isEmpty then summary else s!"{summary}\n{detail}"

def failure (b : StatusBlock) (seconds : Nat) (summary detail : String) :
    StatusBlock × Output :=
  b.display seconds (Ansi.red.paint "✗") (compose summary detail)

def detach (_ : StatusBlock) : StatusBlock := fresh

/-- Leaves the block and prints a line below it. -/
def printBelow (b : StatusBlock) (line : String) : StatusBlock × String :=
  (b.detach, line ++ "\n")

end StatusBlock
end HotReload
