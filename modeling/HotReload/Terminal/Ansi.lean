namespace HotReload.Ansi

structure Style where
  on : Nat
  off : Nat

def bold : Style := ⟨1, 0⟩
def dim : Style := ⟨2, 0⟩
def red : Style := ⟨31, 39⟩
def green : Style := ⟨32, 39⟩
def yellow : Style := ⟨33, 39⟩
def cyan : Style := ⟨36, 39⟩
def brightRed : Style := ⟨91, 39⟩
def brightGreen : Style := ⟨92, 39⟩
def brightYellow : Style := ⟨93, 39⟩
def brightBlue : Style := ⟨94, 39⟩

def introducer : String := "\x1b["

def graphics (code : Nat) : String := s!"{introducer}{code}m"

def Style.paint (style : Style) (text : String) : String :=
  graphics style.on ++ text ++ graphics style.off

def cursorUp (rows : Nat) : String := s!"{introducer}{rows}A"

def clearBelow : String := introducer ++ "J"

def clearLine : String := introducer ++ "K"

end HotReload.Ansi
