import HotReload.Payload.Calls
import HotReload.Proofs.JsonText
import HotReload.Text.Printable
import Mathlib.Data.List.Induction

namespace HotReload.Payload

variable {α : Type} {p : Payload} {calls : List Call} {given? : Call → Option (Option α)}
  {get : Payload → Option α} {filled : α → Prop} {parts : List (String × Nat)}

theorem ofCalls_concat (calls : List Call) (c : Call) :
    ofCalls (calls ++ [c]) = (ofCalls calls).call c := by
  rw [ofCalls, List.foldl_append]
  rfl

theorem lastGiven_concat (calls : List Call) (c : Call) :
    lastGiven given? (calls ++ [c]) = (given? c).or (lastGiven given? calls) := by
  rw [lastGiven, List.filterMap_append]
  cases given : given? c <;> simp [given, lastGiven]

/-- A part is set by the calls that give something for it, and by no others. -/
structure IsPart (given? : Call → Option (Option α)) (get : Payload → Option α)
    (filled : α → Prop) : Prop where
  absent : get nothing = none
  set : ∀ (p : Payload) c v, given? c = some v →
    ∀ a, get (p.call c) = some a ↔ v = some a ∧ filled a
  kept : ∀ (p : Payload) c, given? c = none → get (p.call c) = get p

/-- The last call for a part decides it, whatever else was called before and after. -/
theorem IsPart.get_ofCalls (part : IsPart given? get filled) (calls : List Call) (a : α) :
    get (ofCalls calls) = some a ↔ lastGiven given? calls = some (some a) ∧ filled a := by
  induction calls using List.reverseRecOn with
  | nil =>
    have start : get (ofCalls []) = none := part.absent
    simp [start, lastGiven]
  | append_singleton calls c ih =>
    rw [ofCalls_concat, lastGiven_concat]
    cases given : given? c with
    | none =>
      rw [part.kept _ c given]
      exact ih
    | some v =>
      rw [part.set _ c v given a]
      simp

theorem isPart_components : IsPart Call.components? components (· ≠ []) where
  absent := rfl
  set p c v given a := by
    cases c <;> cases given
    simp [call, withComponents, Option.filter_eq_some_iff]
  kept p c silent := by cases c <;> cases silent <;> rfl

theorem isPart_styles : IsPart Call.styles? styles (·.entries ≠ []) where
  absent := rfl
  set p c v given a := by
    cases c <;> cases given
    simp [call, withStyles, Option.filter_eq_some_iff]
  kept p c silent := by cases c <;> cases silent <;> rfl

theorem isPart_stylesheets : IsPart Call.stylesheets? stylesheets (· ≠ []) where
  absent := rfl
  set p c v given a := by
    cases c <;> cases given
    simp [call, withStylesheets, Option.filter_eq_some_iff]
  kept p c silent := by cases c <;> cases silent <;> rfl

theorem counted_eq_phrase (n : Nat) (noun : String) : counted n noun = phrase (noun, n) := by
  rw [counted, phrase]
  split
  · rename_i one
    subst one
    have number : toString 1 ++ " " = "1 " := by decide
    rw [number]
    exact (String.append_empty).symm
  · rfl

theorem phrase_begins (part : String × Nat) :
    ∃ d, (phrase part).toList.head? = some d ∧ d.isDigit = true := by
  have written : (toString part.2).toList ≠ [] := by simp
  obtain ⟨d, rest, number⟩ := List.exists_cons_of_ne_nil written
  have digit : d.isDigit = true := digits_toString part.2 d (number ▸ List.mem_cons_self)
  refine ⟨d, ?_, digit⟩
  rw [phrase, String.toList_append, String.toList_append, String.toList_append, number]
  rfl

theorem exists_intercalate (separator first : String) (more : List String) :
    ∃ rest, separator.intercalate (first :: more) = first ++ rest := by
  cases more with
  | nil => exact ⟨"", by simp [String.intercalate_singleton]⟩
  | cons second more =>
    refine ⟨separator ++ separator.intercalate (second :: more), ?_⟩
    rw [String.intercalate_cons_cons, String.append_assoc]

theorem listing_ne (parts : List (String × Nat)) (part : String × Nat) :
    ", ".intercalate ((part :: parts).map phrase) ≠ "no changes" := by
  intro same
  obtain ⟨rest, begun⟩ := exists_intercalate ", " (phrase part) (parts.map phrase)
  obtain ⟨d, first, digit⟩ := phrase_begins part
  have heads := congrArg (·.toList.head?) (begun.symm.trans same)
  rw [String.toList_append, List.head?_append, first] at heads
  have letter : d = 'n' := Option.some.inj heads
  subst letter
  exact absurd digit (by decide)

def sizes (p : Payload) : List (String × Nat) :=
  (p.components.map fun tags => ("component", tags.length)).toList ++
    (p.styles.map fun m => ("inline style", m.entries.length)).toList ++
    (p.stylesheets.map fun urls => ("stylesheet", urls.length)).toList

theorem summary_eq (p : Payload) : p.summary =
    if p.sizes.isEmpty then "no changes" else ", ".intercalate (p.sizes.map phrase) := by
  obtain ⟨components, styles, stylesheets⟩ := p
  cases components <;> cases styles <;> cases stylesheets <;>
    simp [summary, sizes, counted_eq_phrase]

theorem sizes_eq_nil_iff : p.sizes = [] ↔ p.isEmpty = true := by
  simp [sizes, isEmpty, and_assoc]

theorem summary_eq_iff : p.summary = "no changes" ↔ p.isEmpty = true := by
  rw [summary_eq, ← sizes_eq_nil_iff]
  cases parts : p.sizes with
  | nil => simp
  | cons part rest => simpa using listing_ne rest part

theorem lists_sizes (p : Payload) : p.Lists p.sizes := by
  obtain ⟨components, styles, stylesheets⟩ := p
  constructor
  · cases components <;> cases styles <;> cases stylesheets <;> simp [sizes]
  · simp [sizes]
  · simp [sizes]
  · simp [sizes]

/-- Each part of a payload is what the last call for it gave, unless that was nothing or empty. A
payload without parts has the empty object as its text and says so in its summary, and no other
payload does. Any other summary lists the present parts in order. -/
theorem parts_of_calls (calls : List Call) :
    (∀ tags, (ofCalls calls).components = some tags ↔
      lastGiven Call.components? calls = some (some tags) ∧ tags ≠ []) ∧
    (∀ m, (ofCalls calls).styles = some m ↔
      lastGiven Call.styles? calls = some (some m) ∧ m.entries ≠ []) ∧
    (∀ urls, (ofCalls calls).stylesheets = some urls ↔
      lastGiven Call.stylesheets? calls = some (some urls) ∧ urls ≠ []) ∧
    ((ofCalls calls).isEmpty = true ↔ (ofCalls calls).text = "\x7b\x7d") ∧
    ((ofCalls calls).isEmpty = true ↔ (ofCalls calls).summary = "no changes") ∧
    ((ofCalls calls).isEmpty = false → ∃ parts, (ofCalls calls).Lists parts ∧
      (ofCalls calls).summary = ", ".intercalate (parts.map phrase)) := by
  refine ⟨isPart_components.get_ofCalls calls, isPart_styles.get_ofCalls calls,
    isPart_stylesheets.get_ofCalls calls, (text_eq_braces_iff _).symm, summary_eq_iff.symm, ?_⟩
  intro present
  refine ⟨_, lists_sizes _, ?_⟩
  have some_part : (ofCalls calls).sizes.isEmpty = false := by
    rw [Bool.eq_false_iff, ne_eq, List.isEmpty_iff, sizes_eq_nil_iff, present]
    exact Bool.false_ne_true
  rw [summary_eq, some_part]
  rfl

example : (ofCalls [.components (some ["a"]), .stylesheets (some ["/x", "/y"]),
    .components (some [])]).summary = "2 stylesheets" := by decide

end HotReload.Payload
