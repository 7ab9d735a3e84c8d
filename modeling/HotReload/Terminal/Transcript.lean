import HotReload.Terminal.Screen

namespace HotReload

/-- A text by what it is meant to do to the screen. -/
inductive Display where
  | note (text : String)
  | status (text : String)
  | below (text : String)
deriving Repr, DecidableEq

def Display.text : Display → String
  | .note text | .status text | .below text => text

def Display.lasting : Display → List Row
  | .note text | .below text => rowsOf text
  | .status _ => []

structure Transcript where
  kept : List Row
  /-- The rows of the status that the next one replaces. -/
  block : List Row
  /-- The rows that were logged since. -/
  noted : List Row
deriving Repr, DecidableEq

namespace Transcript

def ofRows (rows : List Row) : Transcript := ⟨rows, [], []⟩

def rows (t : Transcript) : List Row := t.kept ++ t.block ++ t.noted

def next (t : Transcript) : Display → Transcript
  | .note text => { t with noted := t.noted ++ rowsOf text }
  | .status text => ⟨t.kept ++ t.noted, rowsOf text, []⟩
  | .below text => ⟨t.rows ++ rowsOf text, [], []⟩

def after (t : Transcript) (ds : List Display) : Transcript := ds.foldl next t

end Transcript

def Screen.after (s : Screen) (ds : List Display) : Screen :=
  ds.foldl (fun s d => s.write d.text) s

/-- At every moment the screen shows the transcript. -/
def Faithful (t : Transcript) (ds : List Display) : Prop :=
  ∀ n, (Screen.ofRows t.rows).after (ds.take n) = .ofRows (t.after (ds.take n)).rows

/-- Each status takes away the block that it replaces and nothing else, and so all that has to
stay is still on the screen in the end. -/
def LogLinesStay (before : List Row) (ds : List Display) : Prop :=
  Faithful (.ofRows before) ds ∧
    (before ++ ds.flatMap Display.lasting).Sublist ((Screen.ofRows before).after ds).rows

end HotReload
