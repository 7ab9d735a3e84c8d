import HotReload.Terminal.Ansi
import HotReload.Terminal.Output

namespace HotReload

structure Note where
  topic : String
  text : String
deriving Repr, DecidableEq

namespace Note

def lowerAscii (c : Char) : Char :=
  if 'A' ≤ c ∧ c ≤ 'Z' then Char.ofNat (c.toNat + 32) else c

def colour (topic : String) : Ansi.Style :=
  let name := topic.map lowerAscii
  if name = "watch" then Ansi.brightGreen
  else if name = "impact" ∨ name = "reload" then Ansi.brightBlue
  else if name = "error" then Ansi.brightRed
  else Ansi.brightYellow

def line (n : Note) : String :=
  let label := Ansi.bold.paint ((colour n.topic).paint s!"[{n.topic}]")
  s!"{Ansi.clearLine}{label} {n.text}\n"

def log (n : Note) : Output := .err n.line

def logVerbose (verbose : Bool) (notes : List Note) : List Output :=
  if verbose then notes.map log else []

def watch (text : String) : Note := ⟨"watch", text⟩
def impact (text : String) : Note := ⟨"impact", text⟩
def warning (text : String) : Note := ⟨"warning", text⟩
def error (text : String) : Note := ⟨"error", text⟩

end Note
end HotReload
