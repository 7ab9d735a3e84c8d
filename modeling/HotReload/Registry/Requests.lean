import HotReload.Snapshot
import Mathlib.Data.Finset.Card

/-! What a registry is asked, and what it has to answer.
The records inserted before decide every answer. A hash map keeps each of them in a slot, whose
key is the path the slot was opened with; a later record may spell that path in another way. -/
namespace HotReload.Registry

inductive Request where
  | insert (m : Module)
  | get (p : Path)
  | size
  | components
deriving Repr, DecidableEq

inductive Answer where
  | replaced (old : Option Module)
  | found (m : Option Module)
  | count (n : Nat)
  | listed (cs : List (Module × String))
deriving Repr, DecidableEq

def serve (r : Registry) : Request → Answer × Registry
  | .insert m => (.replaced (r.insert m).1, (r.insert m).2)
  | .get p => (.found (r.get? p), r)
  | .size => (.count r.size, r)
  | .components => (.listed r.components, r)

def after (r : Registry) (qs : List Request) : Registry := qs.foldl (fun r q => (r.serve q).2) r

def Request.record? : Request → Option Module
  | .insert m => some m
  | _ => none

def inserted (qs : List Request) : List Module := qs.filterMap Request.record?

/-- What was inserted last under the path `p`, if anything was. -/
def IsLatest (ms : List Module) (p : Path) : Option Module → Prop
  | none => ∀ x ∈ ms, x.source.components ≠ p.components
  | some m => ∃ older newer, ms = older ++ m :: newer ∧ m.source.components = p.components ∧
      ∀ x ∈ newer, x.source.components ≠ p.components

def Request.IsAnswered (ms : List Module) : Request → Answer → Prop
  | .insert m, .replaced old => IsLatest ms m.source old
  | .get p, .found m => IsLatest ms p m
  | .size, .count n => n = (ms.map (·.source.components)).toFinset.card
  | .components, .listed cs =>
      cs.Nodup ∧ ∀ m tag, (m, tag) ∈ cs ↔ IsLatest ms m.source (some m) ∧ m.tag = some tag
  | _, _ => False

structure Slot where
  key : Path
  record : Module
deriving Repr, DecidableEq

/-- Puts `m` in the slot whose key equals its path, and hands back what was there, or else opens
a slot. -/
def fill (m : Module) : List Slot → Option Module × List Slot
  | [] => (none, [⟨m.source, m⟩])
  | s :: ss =>
    if s.key.same m.source then (some s.record, { s with record := m } :: ss)
    else ((fill m ss).1, s :: (fill m ss).2)

def slots (ms : List Module) : List Slot := ms.foldl (fun ss m => (fill m ss).2) []

/-- What the registry does is what a map does that looks at its keys only. -/
structure IsKeptIn (r : Registry) (ss : List Slot) : Prop where
  keyed : ∀ s ∈ ss, s.record.source.components = s.key.components
  distinct : ss.Pairwise fun a b => a.key.components ≠ b.key.components
  records : r.entries = ss.map Slot.record
  found : ∀ p, r.get? p = (ss.find? (·.key.same p)).map Slot.record
  replaced : ∀ m, (r.insert m).1 = (fill m ss).1

end HotReload.Registry
