import HotReload.Watch.World

/-! What is done with a debouncer, and when.
From the record of it alone, without the debouncer's fields, it can be told whether a change of
the watched file is due. Records are listed with the latest one first. -/
namespace HotReload.Watch

def EventKind.isCreation : EventKind → Bool
  | .createAny | .createFile | .createFolder | .createOther => true
  | _ => false

def EventKind.isModification : EventKind → Bool
  | .modifyAny | .modifyDataAny | .modifySize | .modifyContent | .modifyDataOther | .renameAny
  | .renameTo | .renameFrom | .renameBoth | .renameOther | .modifyOther | .metadata => true
  | _ => false

inductive Deed where
  | added (e : Event)
  | asked (taken : Bool)
deriving Repr, DecidableEq

structure Entry where
  time : Nat
  deed : Deed
deriving Repr, DecidableEq

def Entry.Announces (x : Entry) (target : Path) : Prop :=
  ∃ e, x.deed = .added e ∧ e.Announces target

def Entry.IsTaking (x : Entry) : Prop := x.deed = .asked true

/-- `x` is the latest entry with `p`, and none with `stop` is later. -/
def Latest (p stop : Entry → Prop) (past : List Entry) (x : Entry) : Prop :=
  ∃ newer older, past = newer ++ x :: older ∧ p x ∧ ∀ y ∈ newer, ¬ p y ∧ ¬ stop y

/-- An event announced the target since the last taking, the latest such event lies `debounce`
back, and the last taking `cooldown`. -/
def Due (target : Path) (debounce cooldown : Nat) (past : List Entry) (now : Nat) : Prop :=
  (∃ x, Latest (·.Announces target) Entry.IsTaking past x ∧ x.time + debounce ≤ now) ∧
    ∀ y, Latest Entry.IsTaking Entry.IsTaking past y → y.time + cooldown ≤ now

/-- How much of `span` is left at the time `now`, from the latest entry with `p` on; nothing if
there is none. -/
def Left (p stop : Entry → Prop) (span : Nat) (past : List Entry) (now left : Nat) : Prop :=
  (∃ x, Latest p stop past x ∧ left = x.time + span - now) ∨
    (∀ x, ¬ Latest p stop past x) ∧ left = 0

/-- One thing done with a debouncer, or with its clock, which only goes on. -/
inductive Move where
  | add (e : Event)
  | pass (time : Nat)
  | take
deriving Repr, DecidableEq

structure Handled where
  debouncer : Debouncer
  now : Nat
  past : List Entry

namespace Handled

def fresh (target : Path) (debounce cooldown start : Nat) : Handled :=
  ⟨.withTiming target debounce cooldown, start, []⟩

def move (h : Handled) : Move → Handled
  | .add e =>
    { h with debouncer := h.debouncer.addEvent h.now e, past := ⟨h.now, .added e⟩ :: h.past }
  | .pass time => { h with now := h.now + time }
  | .take =>
    let (taken, debouncer) := h.debouncer.take h.now
    { h with debouncer, past := ⟨h.now, .asked taken⟩ :: h.past }

def run (h : Handled) (moves : List Move) : Handled := moves.foldl move h

def answer (h : Handled) : Bool := (h.debouncer.take h.now).1

/-- Nothing is announced about the target, and nothing is let through. -/
def Idles (target : Path) (h : Handled) : List Move → Prop
  | [] => True
  | .add e :: later => ¬ e.Announces target ∧ (h.move (.add e)).Idles target later
  | .pass time :: later => (h.move (.pass time)).Idles target later
  | .take :: later => h.answer = false ∧ (h.move .take).Idles target later

def answers (h : Handled) : List Bool :=
  h.past.filterMap fun x => match x.deed with
    | .added _ => none
    | .asked taken => some taken

end Handled
end HotReload.Watch
