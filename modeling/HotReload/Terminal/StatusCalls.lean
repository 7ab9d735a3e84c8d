import HotReload.Terminal.Screen
import HotReload.Terminal.StatusBlock

namespace HotReload

inductive StatusCall where
  | success (seconds : Nat) (message : String)
  | unchanged (seconds : Nat) (message : String)
  | failure (seconds : Nat) (summary detail : String)
  | detach
  | printBelow (line : String)
deriving Repr, DecidableEq

namespace StatusBlock

def call (b : StatusBlock) : StatusCall → StatusBlock × String
  | .success seconds message => (b.success seconds message).map id Output.text
  | .unchanged seconds message => (b.unchanged seconds message).map id Output.text
  | .failure seconds summary detail => (b.failure seconds summary detail).map id Output.text
  | .detach => (b.detach, "")
  | .printBelow line => b.printBelow line

def writes (b : StatusBlock) : List StatusCall → String
  | [] => ""
  | c :: cs => (b.call c).2 ++ (b.call c).1.writes cs

end StatusBlock

namespace StatusCall

def isStatus : StatusCall → Bool
  | .success _ _ | .unchanged _ _ | .failure _ _ _ => true
  | .detach | .printBelow _ => false

def texts : StatusCall → List String
  | .success _ message | .unchanged _ message => [message]
  | .failure _ summary detail => [summary, detail]
  | .detach => []
  | .printBelow line => [line]

def linesOf (text : String) : List Row := text.toList.splitOn '\n'

def rows : StatusCall → List Row
  | .success seconds message => linesOf s!"[{StatusBlock.clock seconds}] ✓ {message}"
  | .unchanged seconds message => linesOf s!"[{StatusBlock.clock seconds}] {message}"
  | .failure seconds summary detail =>
    linesOf s!"[{StatusBlock.clock seconds}] ✗ {summary}" ++
      if detail.isEmpty then [] else linesOf detail
  | .detach => []
  | .printBelow line => linesOf line

/-- Is a block left alone when these calls come next? Any call that is no status detaches it. -/
def leaveBlock : List StatusCall → Bool
  | [] => true
  | c :: _ => !c.isStatus

/-- The rows that stay: all that is printed below a block, and each block that is left alone. -/
def lasting : List StatusCall → List Row
  | [] => []
  | c :: cs => (if c.isStatus && !leaveBlock cs then [] else c.rows) ++ lasting cs

def Legible (cs : List Char) : Prop := ∀ c ∈ cs, c = '\n' ∨ 0x20 ≤ c.toNat

instance (cs : List Char) : Decidable (Legible cs) :=
  List.decidableBAll (fun c : Char => c = '\n' ∨ 0x20 ≤ c.toNat) cs

/-- There are no control characters but line feeds, and a status has not too many lines for the
movement of the cursor. -/
structure IsPlain (c : StatusCall) : Prop where
  visible : ∀ text ∈ c.texts, Legible text.toList
  small : c.isStatus = true → c.rows.length < 65536

instance (c : StatusCall) : Decidable c.IsPlain :=
  decidable_of_iff ((∀ text ∈ c.texts, Legible text.toList) ∧
    (c.isStatus = true → c.rows.length < 65536))
    ⟨fun ⟨visible, small⟩ => ⟨visible, small⟩, fun plain => ⟨plain.visible, plain.small⟩⟩

end StatusCall
end HotReload
