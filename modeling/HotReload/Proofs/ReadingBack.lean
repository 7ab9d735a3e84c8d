import HotReload.Proofs.CompactText
import HotReload.Proofs.EntryReaders
import HotReload.Snapshot.Text

/-! Readers that accept every text of a value. What a reader makes of a value carries over to
optional values, lists and objects of them, and to records member by member. -/
namespace HotReload.Json

variable {α σ δ : Type} {n : Nat} {s text rest : List Char}

/-- From every text of `v`, with white space in front and anything behind, the reader takes the
whole of it and yields `a`. -/
def Reads (read : Reader α) (v : Value) (a : α) : Prop :=
  ∀ ⦃s text rest : List Char⦄, Spaced s text → Written text v rest → Yields (read s) a rest

theorem Reads.map {β : Type} {read : Reader α} {v : Value} {a : α} (reads : Reads read v a)
    (f : α → β) : Reads (fun s => (read s).map (Parsed.map f)) v (f a) := by
  intro s text rest spaced written
  exact (reads spaced written).map f

theorem Written.starts {v : Value} (written : Written text v rest) :
    ∃ r, text = v.first :: r := by
  cases written <;> exact ⟨_, rfl⟩

theorem isSpace_first (v : Value) : isSpace v.first = false := by
  cases v with
  | bool b => cases b <;> rfl
  | _ => rfl

theorem first_ne_bracket (v : Value) : v.first ≠ ']' := by
  cases v with
  | bool b => cases b <;> decide
  | _ => exact by simp [Value.first]

theorem first_ne_n {v : Value} (given : v ≠ .null) : v.first ≠ 'n' := by
  cases v with
  | null => exact (given rfl).elim
  | bool b => cases b <;> decide
  | _ => exact by simp [Value.first]

theorem next_of_written {v : Value} (spaced : Spaced s text) (written : Written text v rest) :
    ∃ r, skipSpace s = v.first :: r := by
  obtain ⟨r, rfl⟩ := written.starts
  exact ⟨r, skipSpace_of_spaced spaced (isSpace_first v)⟩

theorem reads_string (v : String) : Reads readString (.string v) v := by
  intro s text rest spaced written
  cases written with
  | string literal =>
    exact yields_readString_iff.mpr ⟨_, skipSpace_of_spaced spaced rfl, literal⟩

theorem reads_bool (b : Bool) : Reads readBool (.bool b) b := by
  intro s text rest spaced written
  rw [yields_readBool_iff]
  cases written <;> exact skipSpace_of_spaced spaced rfl

theorem Reads.optional {read : Reader α} {v : Value} {a : α} (reads : Reads read v a)
    (given : v ≠ .null) : Reads (readOptional read) v (some a) := by
  intro s text rest spaced written
  obtain ⟨r, next⟩ := next_of_written spaced written
  refine yields_readOptional_iff.mpr (.inr ⟨?_, a, reads spaced written, rfl⟩)
  intro t null
  exact first_ne_n given (List.cons.inj (next.symm.trans null)).1

theorem Reads.takes {read : Reader α} {part : Part} {v : Value} {a : α} (reads : Reads read v a)
    (written : Written part.front v part.back) : Takes read part a where
  yields := fun _ spaced => reads spaced written
  starts := by
    obtain ⟨r, front⟩ := written.starts
    exact ⟨v.first, r, front, isSpace_first v, first_ne_bracket v⟩

section Lists

variable {item : Reader α} {write : α → Value} {as : List α} {vs : List Value}

abbrev PartsWritten (parts : List Part) (vs : List Value) : Prop :=
  List.Forall₂ (fun part v => Written part.front v part.back) parts vs

theorem further_of_items (further : FurtherItems s vs rest) :
    ∃ parts, PartsWritten parts vs ∧ FurtherEntries ']' Bare s (unnamed parts) rest := by
  induction vs generalizing s with
  | nil =>
    cases further with
    | none close => exact ⟨[], .nil, .none close⟩
  | cons v vs ih =>
    cases further with
    | @some _ _ item next _ _ _ comma space first further =>
      obtain ⟨parts, written, entries⟩ := ih further
      exact ⟨⟨item, next⟩ :: parts, .cons first written, .some comma space entries⟩

theorem entries_of_items (items : Items s vs rest) :
    ∃ parts, PartsWritten parts vs ∧ Entries ']' Bare s (unnamed parts) rest := by
  cases items with
  | none close => exact ⟨[], .nil, .none close⟩
  | @some _ item next _ _ _ space first further =>
    obtain ⟨parts, written, entries⟩ := further_of_items further
    exact ⟨⟨item, next⟩ :: parts, .cons first written, .some space entries⟩

theorem takes_of_written (reads : ∀ a ∈ as, Reads item (write a) a) {parts : List Part}
    (written : PartsWritten parts (as.map write)) : List.Forall₂ (Takes item) parts as := by
  rw [PartsWritten, List.forall₂_map_right_iff] at written
  induction written with
  | nil => exact .nil
  | cons first _ ih =>
    obtain ⟨head, tail⟩ := List.forall_mem_cons.mp reads
    exact .cons (head.takes first) (ih tail)

theorem reads_list (reads : ∀ a ∈ as, Reads item (write a) a) :
    Reads (readList item) (.array (as.map write)) as := by
  intro s text rest spaced written
  cases written with
  | array items =>
    have next := skipSpace_of_spaced spaced rfl
    obtain ⟨parts, written, entries⟩ := entries_of_items items
    have taken := takes_of_written reads written
    exact yields_readList_iff.mpr ⟨_, length_le_of_skipSpace next, next,
      readItems_of_entries taken entries _⟩

end Lists

section Objects

variable {member : σ → String → Except Fault (Reader σ)} {state after : σ}
  {ms : List (String × Value)}

inductive Collects (member : σ → String → Except Fault (Reader σ)) :
    σ → List (String × Value) → σ → Prop where
  | nil (state : σ) : Collects member state [] state
  | cons {k : String} {v : Value} {ms : List (String × Value)} {read : Reader σ}
      {state next after : σ} (known : member state k = .ok read) (reads : Reads read v next)
      (later : Collects member next ms after) : Collects member state ((k, v) :: ms) after

theorem label_of_member {k : String} {v : Value} (one : Member s (k, v) rest) :
    ∃ part : Part, Label s k part.front ∧ part.back = rest ∧ Written part.front v part.back := by
  cases one with
  | mk before literal colon space written =>
    exact ⟨⟨_, _⟩, ⟨_, _, _, before, literal, colon, space⟩, rfl, written⟩

theorem takesIn_of_further (collects : Collects member state ms after)
    (further : FurtherMembers s ms rest) :
    ∃ members, TakesIn member state members after ∧
      FurtherEntries '\x7d' Label s members rest := by
  induction collects generalizing s with
  | nil state =>
    cases further with
    | none close => exact ⟨[], .nil state, .none close⟩
  | cons known reads _ ih =>
    cases further with
    | some comma first further =>
      obtain ⟨part, label, rfl, written⟩ := label_of_member first
      obtain ⟨members, takes, entries⟩ := ih further
      exact ⟨_, .cons known (reads.takes written) takes, .some comma label entries⟩

theorem takesIn_of_members (collects : Collects member state ms after)
    (written : Members s ms rest) :
    ∃ members, TakesIn member state members after ∧ Entries '\x7d' Label s members rest := by
  cases collects with
  | nil =>
    cases written with
    | none close => exact ⟨[], .nil state, .none close⟩
  | cons known reads later =>
    cases written with
    | some first further =>
      obtain ⟨part, label, rfl, written⟩ := label_of_member first
      obtain ⟨members, takes, entries⟩ := takesIn_of_further later further
      exact ⟨_, .cons known (reads.takes written) takes, .some label entries⟩

theorem readMembers_members (collects : Collects member state ms after)
    (written : Members s ms rest) (bound : s.length ≤ n) :
    Yields (readMembers member true state s bound) after rest := by
  obtain ⟨members, takes, entries⟩ := takesIn_of_members collects written
  exact readMembers_of_entries takes entries bound

/-- Pairs are collected in order, also those with a repeated name. -/
theorem collects_pairs {value : Reader α} {write : α → Value} {pairs : List (String × α)}
    (reads : ∀ p ∈ pairs, Reads value (write p.2) p.2) (done : List (String × α)) :
    Collects (addPair value) done (pairs.map fun p => (p.1, write p.2))
      (pairs.reverse ++ done) := by
  induction pairs generalizing done with
  | nil => exact .nil done
  | cons p pairs ih =>
    have later := ih (fun q member => reads q (List.mem_cons_of_mem p member)) (p :: done)
    rw [List.reverse_cons, List.append_assoc]
    exact .cons rfl ((reads p List.mem_cons_self).map fun v => (p.1, v) :: done) later

theorem reads_pairs {value : Reader α} {write : α → Value} {pairs : List (String × α)}
    (reads : ∀ p ∈ pairs, Reads value (write p.2) p.2) :
    Reads (readPairs value) (.object (pairs.map fun p => (p.1, write p.2))) pairs := by
  intro s text rest spaced written
  cases written with
  | object members =>
    have next := skipSpace_of_spaced spaced rfl
    have collects := collects_pairs reads []
    rw [List.append_nil] at collects
    exact yields_readPairs_iff.mpr ⟨_, length_le_of_skipSpace next, next,
      readMembers_members collects members _⟩

end Objects

section Records

variable {record : Record δ α} {ms : List (String × Value)}

inductive Fills (record : Record δ α) : δ → List (String × Value) → δ → Prop where
  | nil (draft : δ) : Fills record draft [] draft
  | cons {k : String} {v : Value} {ms : List (String × Value)} {f : Field δ}
      {draft next after : δ} (found : record.fields.find? (·.name == k) = some f)
      (reads : Reads (f.read draft) v next) (later : Fills record next ms after) :
      Fills record draft ((k, v) :: ms) after

theorem Fills.collects {draft after : δ} (fills : Fills record draft ms after)
    (names : List String) (distinct : (ms.map Prod.fst).Nodup)
    (unseen : ∀ k ∈ ms.map Prod.fst, k ∉ names) :
    ∃ seen, Collects record.member (draft, names) ms (after, seen) := by
  induction fills generalizing names with
  | nil draft => exact ⟨names, .nil _⟩
  | @cons k v ms f draft next after found reads _ ih =>
    obtain ⟨head, tail⟩ := List.nodup_cons.mp distinct
    have new : k ∉ names := unseen k List.mem_cons_self
    have later_unseen : ∀ l ∈ ms.map Prod.fst, l ∉ k :: names := by
      intro l member seen
      rcases List.mem_cons.mp seen with rfl | seen
      · exact head member
      · exact unseen l (List.mem_cons_of_mem k member) seen
    obtain ⟨seen, later⟩ := ih (k :: names) tail later_unseen
    refine ⟨seen, .cons ?_ (reads.map fun d => (d, k :: names)) later⟩
    simp [Record.member, found, new]

theorem reads_record {draft : δ} {a : α} (fills : Fills record record.blank ms draft)
    (distinct : (ms.map Prod.fst).Nodup) (complete : record.finish draft = some a) :
    Reads record.read (.object ms) a := by
  intro s text rest spaced written
  cases written with
  | object members =>
    obtain ⟨seen, collects⟩ := fills.collects [] distinct (fun _ _ => List.not_mem_nil)
    have next := skipSpace_of_spaced spaced rfl
    exact yields_record_iff.mpr ⟨_, length_le_of_skipSpace next,
      .inl ⟨next, _, readMembers_members collects members _, complete⟩⟩

theorem Fills.field {k : String} {v : Value} {β : Type} {read : Reader β} {put : δ → β → δ} {b : β}
    {draft after : δ} (found : record.fields.find? (·.name == k) = some (Json.field k read put))
    (reads : Reads read v b) (later : Fills record (put draft b) ms after) :
    Fills record draft ((k, v) :: ms) after :=
  .cons found (reads.map (put draft)) later

/-- A member that is left out leaves the draft as it is. -/
theorem Fills.optional {k : String} {β : Type} {read : Reader β} {put : δ → Option β → δ}
    {write : β → Value} {b : Option β} {draft after : δ}
    (found : record.fields.find? (·.name == k) = some (Json.field k (readOptional read) put))
    (reads : ∀ x, b = some x → Reads read (write x) x ∧ write x ≠ .null)
    (absent : put draft none = draft) (later : Fills record (put draft b) ms after) :
    Fills record draft (optionalMember k (b.map write) ++ ms) after := by
  cases b with
  | none =>
    rw [absent] at later
    exact later
  | some x =>
    obtain ⟨whole, given⟩ := reads x rfl
    exact .field found (whole.optional given) later

end Records

theorem readWhole_of_isText {read : Reader α} {v : Value} {a : α} (reads : Reads read v a)
    (whole : IsText text v) : readWhole read text = .ok a := by
  obtain ⟨front, back, spaced, written, blank⟩ := whole
  refine readWhole_eq_ok_iff.mpr ⟨back, reads spaced written, ?_⟩
  obtain ⟨space, all_blank, rfl⟩ := blank
  rw [List.append_nil]
  exact skipSpace_eq_nil_iff.mpr all_blank

end HotReload.Json
