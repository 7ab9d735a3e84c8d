import HotReload.Proofs.TypedForms
import HotReload.Snapshot.Text
import Mathlib.Data.List.Pairwise

/-! Records against their layout in a text.
Each field sets a component of the draft that no other field touches. So the order of the members
does not matter, and a component has its first value until its member is met. -/
namespace HotReload.Json

variable {α δ : Type} {n : Nat} {s text rest : List Char}

theorem recognizes_skip : Recognizes skipValue fun text _ rest => WellFormed text rest where
  yields_iff := yields_skipValue_iff
  formed := id

/-- A field with the component of the draft that it sets. -/
structure Slot (δ : Type) where
  {β γ : Type}
  name : String
  read : Reader β
  form : Form β
  put : δ → β → δ
  kept : β → γ
  get : δ → γ
  recognizes : Recognizes read form
  get_put : ∀ draft b, get (put draft b) = kept b

namespace Slot

def field (slot : Slot δ) : Field δ := Json.field slot.name slot.read slot.put

def keptForm (slot : Slot δ) : Form slot.γ := fun text c rest =>
  ∃ b, slot.form text b rest ∧ slot.kept b = c

/-- The slots have different names, and none sets what the other does. -/
def Apart (s t : Slot δ) : Prop :=
  s.name ≠ t.name ∧ (∀ draft b, s.get (t.put draft b) = s.get draft) ∧
    ∀ draft b, t.get (s.put draft b) = t.get draft

instance : Std.Symm (Apart (δ := δ)) := ⟨fun _ _ apart => ⟨apart.1.symm, apart.2.2, apart.2.1⟩⟩

end Slot

/-- The fields of the record are these slots, which make up a draft. -/
structure Composed (record : Record δ α) (slots : List (Slot δ)) : Prop where
  fields : record.fields = slots.map Slot.field
  apart : slots.Pairwise Slot.Apart
  ext : ∀ d e, (∀ slot ∈ slots, slot.get d = slot.get e) → d = e

def AllGiven (slots : List (Slot δ)) (members : List (String × Part)) (d e : δ) : Prop :=
  OthersFormed (slots.map Slot.name) members ∧
    ∀ slot ∈ slots, MayGive members slot.name slot.keptForm (slot.get d) (slot.get e)

def recordForm (slots : List (Slot δ)) (record : Record δ α) : Form α := fun text a rest =>
  ∃ members draft, RecordParts (slots.map Slot.name) text members rest ∧
    AllGiven slots members record.blank draft ∧ record.finish draft = some a

section Members

variable {name : String} {form : Form α} {part : Part} {members : List (String × Part)} {a b : α}

theorem mayGive_nil_iff : MayGive [] name form b a ↔ a = b := by
  simp [MayGive, Gives]

theorem mayGive_cons_same_iff : MayGive ((name, part) :: members) name form b a ↔
    members.filter (·.1 == name) = [] ∧ form part.front a part.back := by
  simp only [MayGive, Gives, List.filter_cons, BEq.rfl, if_true, reduceCtorEq, false_and,
    false_or, List.cons.injEq, Prod.mk.injEq, true_and]
  constructor
  · rintro ⟨_, ⟨rfl, alone⟩, stands⟩
    exact ⟨alone, stands⟩
  · rintro ⟨alone, stands⟩
    exact ⟨part, ⟨rfl, alone⟩, stands⟩

theorem mayGive_cons_other_iff {k : String} (other : k ≠ name) :
    MayGive ((k, part) :: members) name form b a ↔ MayGive members name form b a := by
  simp [MayGive, Gives, other]

end Members

theorem formed_of_zip {names : List String} {parts : List Part}
    (short : parts.length ≤ names.length) (formed : AllFormed (names.zip parts)) :
    ∀ part ∈ parts, WellFormed part.front part.back := by
  intro part listed
  rw [← List.map_snd_zip short] at listed
  obtain ⟨m, member, rfl⟩ := List.mem_map.mp listed
  exact formed m member

theorem wellFormed_of_record {names : List String} {members : List (String × Part)}
    (cut : RecordParts names text members rest) (formed : AllFormed members) :
    WellFormed text rest := by
  rcases cut with cut | ⟨parts, short, cut, rfl⟩
  · exact wellFormed_of_object cut formed
  · exact wellFormed_of_array cut (formed_of_zip short formed)

namespace Composed

variable {record : Record δ α} {slots : List (Slot δ)} {slot : Slot δ} {d e : δ}
  {seen : List String} {members : List (String × Part)} {after : δ × List String}

theorem eq_of_name_eq (composed : Composed record slots) {other : Slot δ} (listed : slot ∈ slots)
    (other_listed : other ∈ slots) (same : slot.name = other.name) : slot = other := by
  by_contra different
  exact (composed.apart.forall listed other_listed different).1 same

theorem find?_known (composed : Composed record slots) (listed : slot ∈ slots) :
    record.fields.find? (·.name == slot.name) = some slot.field := by
  have some_found : (slots.find? (·.name == slot.name)).isSome := by
    rw [List.find?_isSome]
    exact ⟨slot, listed, BEq.rfl⟩
  obtain ⟨other, found⟩ := Option.isSome_iff_exists.mp some_found
  have same : other.name = slot.name := by simpa using List.find?_some found
  obtain rfl := composed.eq_of_name_eq (List.mem_of_find?_eq_some found) listed same
  rw [composed.fields, List.find?_map]
  exact congrArg (Option.map Slot.field) found

theorem find?_unknown (composed : Composed record slots) {k : String}
    (unknown : k ∉ slots.map Slot.name) : record.fields.find? (·.name == k) = none := by
  rw [composed.fields, List.find?_eq_none]
  intro f listed same
  obtain ⟨slot, member, rfl⟩ := List.mem_map.mp listed
  exact unknown (List.mem_map.mpr ⟨slot, member, beq_iff_eq.mp same⟩)

theorem recognizes_field (slot : Slot δ) (d : δ) : Recognizes (slot.field.read d)
    fun text e rest => ∃ b, slot.form text b rest ∧ slot.put d b = e :=
  slot.recognizes.map (slot.put d)

theorem member_known (composed : Composed record slots) (listed : slot ∈ slots) :
    record.member (d, seen) slot.name =
      if seen.contains slot.name then .error .mismatch
      else .ok fun s => (slot.field.read d s).map (Parsed.map fun d => (d, slot.name :: seen)) := by
  rw [Record.member, composed.find?_known listed]

theorem member_unknown (composed : Composed record slots) {k : String}
    (unknown : k ∉ slots.map Slot.name) : record.member (d, seen) k =
      .ok fun s => (skipValue s).map (Parsed.map fun _ => (d, seen)) := by
  rw [Record.member, composed.find?_unknown unknown]

theorem exact_member (composed : Composed record slots) {state : δ × List String} {k : String}
    {read : Reader (δ × List String)} (known : record.member state k = .ok read) :
    ∃ form, Recognizes read form := by
  obtain ⟨d, seen⟩ := state
  by_cases listed : k ∈ slots.map Slot.name
  · obtain ⟨slot, member, rfl⟩ := List.mem_map.mp listed
    rw [composed.member_known member] at known
    split at known
    · cases known
    · cases known
      exact ⟨_, (recognizes_field slot d).map _⟩
  · rw [composed.member_unknown listed] at known
    cases known
    exact ⟨_, recognizes_skip.map _⟩

theorem takesIn_cons_iff (composed : Composed record slots) {k : String} {part : Part} :
    TakesIn record.member (d, seen) ((k, part) :: members) after ↔
      (k ∉ slots.map Slot.name ∧ WellFormed part.front part.back ∧
        TakesIn record.member (d, seen) members after) ∨
      ∃ slot ∈ slots, slot.name = k ∧ k ∉ seen ∧ ∃ b, slot.form part.front b part.back ∧
        TakesIn record.member (slot.put d b, k :: seen) members after := by
  constructor
  · intro takes
    cases takes with
    | cons known takes later =>
    by_cases listed : k ∈ slots.map Slot.name
    · obtain ⟨slot, member, rfl⟩ := List.mem_map.mp listed
      rw [composed.member_known member] at known
      split at known
      · cases known
      · rename_i new
        cases known
        obtain ⟨_, ⟨b, value, rfl⟩, rfl⟩ := ((recognizes_field slot d).map _).of_takes takes
        exact .inr ⟨slot, member, rfl, by simpa using new, b, value, later⟩
    · rw [composed.member_unknown listed] at known
      cases known
      obtain ⟨_, formed, rfl⟩ := (recognizes_skip.map _).of_takes takes
      exact .inl ⟨listed, formed, later⟩
  · rintro (⟨unknown, formed, later⟩ | ⟨slot, listed, rfl, new, b, stands, later⟩)
    · have skipped : Takes skipValue part () := recognizes_skip.takes formed
      exact .cons (composed.member_unknown unknown) (skipped.map _) later
    · have value := (recognizes_field slot d).takes ⟨b, stands, rfl⟩
      refine .cons ?_ (value.map fun d => (d, slot.name :: seen)) later
      rw [composed.member_known listed, if_neg (by simpa using new)]

/-- A slot whose member was met before keeps its component, and there is no other such member. -/
theorem settled_of_takesIn (composed : Composed record slots) (listed : slot ∈ slots)
    (met : slot.name ∈ seen) (takes : TakesIn record.member (d, seen) members after) :
    members.filter (·.1 == slot.name) = [] ∧ slot.get after.1 = slot.get d := by
  induction members generalizing d seen with
  | nil =>
    cases takes with
    | nil => exact ⟨rfl, rfl⟩
  | cons m members ih =>
    obtain ⟨k, part⟩ := m
    rcases composed.takesIn_cons_iff.mp takes with ⟨unknown, -, later⟩ |
      ⟨other, member, rfl, new, b, -, later⟩
    · have apart : k ≠ slot.name := by
        rintro rfl
        exact unknown (List.mem_map_of_mem listed)
      simpa [apart] using ih met later
    · have apart : other.name ≠ slot.name := by
        intro same
        exact new (same ▸ met)
      have different : slot ≠ other := by
        rintro rfl
        exact apart rfl
      obtain ⟨none_left, kept⟩ := ih (List.mem_cons_of_mem _ met) later
      rw [(composed.apart.forall listed member different).2.1] at kept
      exact ⟨by simpa [apart] using none_left, kept⟩

theorem mayGive_of_takesIn (composed : Composed record slots) (listed : slot ∈ slots)
    (new : slot.name ∉ seen) (takes : TakesIn record.member (d, seen) members after) :
    MayGive members slot.name slot.keptForm (slot.get d) (slot.get after.1) := by
  induction members generalizing d seen with
  | nil =>
    cases takes with
    | nil => exact mayGive_nil_iff.mpr rfl
  | cons m members ih =>
    obtain ⟨k, part⟩ := m
    rcases composed.takesIn_cons_iff.mp takes with ⟨unknown, -, later⟩ |
      ⟨other, member, rfl, -, b, stands, later⟩
    · have apart : k ≠ slot.name := by
        rintro rfl
        exact unknown (List.mem_map_of_mem listed)
      exact (mayGive_cons_other_iff apart).mpr (ih new later)
    · by_cases same : slot = other
      · subst same
        obtain ⟨none_left, kept⟩ :=
          composed.settled_of_takesIn listed List.mem_cons_self later
        rw [slot.get_put] at kept
        exact mayGive_cons_same_iff.mpr ⟨none_left, b, stands, kept.symm⟩
      · have apart := composed.apart.forall listed member same
        have given := ih (List.not_mem_cons_of_ne_of_not_mem apart.1 new) later
        rw [apart.2.1] at given
        exact (mayGive_cons_other_iff apart.1.symm).mpr given

theorem othersFormed_of_takesIn (composed : Composed record slots)
    (takes : TakesIn record.member (d, seen) members after) :
    OthersFormed (slots.map Slot.name) members := by
  induction members generalizing d seen with
  | nil => exact fun _ member => by cases member
  | cons m members ih =>
    obtain ⟨k, part⟩ := m
    rcases composed.takesIn_cons_iff.mp takes with ⟨-, formed, later⟩ |
      ⟨slot, listed, rfl, -, b, -, later⟩
    · exact List.forall_mem_cons.mpr ⟨fun _ => formed, ih later⟩
    · have known : slot.name ∈ slots.map Slot.name := List.mem_map_of_mem listed
      exact List.forall_mem_cons.mpr ⟨fun unknown => (unknown known).elim, ih later⟩

theorem takesIn_of_allGiven (composed : Composed record slots)
    (given : AllGiven slots members d e) (new : ∀ m ∈ members, m.1 ∉ seen) :
    ∃ after, TakesIn record.member (d, seen) members (e, after) := by
  obtain ⟨formed, given⟩ := given
  induction members generalizing d seen with
  | nil =>
    have same : e = d := composed.ext e d fun slot listed => mayGive_nil_iff.mp (given slot listed)
    rw [same]
    exact ⟨seen, .nil _⟩
  | cons m members ih =>
    obtain ⟨k, part⟩ := m
    obtain ⟨first, later_formed⟩ := List.forall_mem_cons.mp formed
    obtain ⟨unmet, later_new⟩ := List.forall_mem_cons.mp new
    -- a known member settles its slot, and the others are given by what is left
    by_cases known : k ∈ slots.map Slot.name
    · obtain ⟨slot, listed, rfl⟩ := List.mem_map.mp known
      obtain ⟨none_left, b, stands, kept⟩ := mayGive_cons_same_iff.mp (given slot listed)
      have still_new : ∀ m ∈ members, m.1 ∉ slot.name :: seen := by
        intro m member met
        rcases List.mem_cons.mp met with same | met
        · exact List.filter_eq_nil_iff.mp none_left m member (beq_iff_eq.mpr same)
        · exact later_new m member met
      have still_given : ∀ other ∈ slots, MayGive members other.name other.keptForm
          (other.get (slot.put d b)) (other.get e) := by
        intro other member
        by_cases same : other = slot
        · subst same
          exact .inl ⟨none_left, kept.symm.trans (other.get_put _ _).symm⟩
        · have apart := composed.apart.forall member listed same
          rw [apart.2.1]
          exact (mayGive_cons_other_iff apart.1.symm).mp (given other member)
      obtain ⟨after, takes⟩ := ih still_new later_formed still_given
      exact ⟨after, composed.takesIn_cons_iff.mpr
        (.inr ⟨slot, listed, rfl, unmet, _, stands, takes⟩)⟩
    · have still_given : ∀ slot ∈ slots,
          MayGive members slot.name slot.keptForm (slot.get d) (slot.get e) := by
        intro slot listed
        have apart : k ≠ slot.name := by
          rintro rfl
          exact known (List.mem_map_of_mem listed)
        exact (mayGive_cons_other_iff apart).mp (given slot listed)
      obtain ⟨after, takes⟩ := ih later_new later_formed still_given
      exact ⟨after, composed.takesIn_cons_iff.mpr (.inl ⟨known, first known, takes⟩)⟩

theorem takesIn_iff (composed : Composed record slots) :
    (∃ seen, TakesIn record.member (d, []) members (e, seen)) ↔ AllGiven slots members d e := by
  constructor
  · rintro ⟨seen, takes⟩
    exact ⟨composed.othersFormed_of_takesIn takes, fun slot listed =>
      composed.mayGive_of_takesIn listed List.not_mem_nil takes⟩
  · intro given
    exact composed.takesIn_of_allGiven given fun _ _ => List.not_mem_nil

section Elements

variable {later : List (Slot δ)} {parts : List Part}

theorem takesIn_element (composed : Composed record slots) (listed : slot ∈ slots) {part : Part}
    (takes : TakesIn record.member (d, seen) ((slot.name, part) :: members) after) :
    ∃ value, slot.form part.front value part.back ∧
      TakesIn record.member (slot.put d value, slot.name :: seen) members after := by
  rcases composed.takesIn_cons_iff.mp takes with ⟨unknown, -, -⟩ |
    ⟨other, member, same, -, value, stands, later⟩
  · exact (unknown (List.mem_map_of_mem listed)).elim
  · obtain rfl := composed.eq_of_name_eq member listed same
    exact ⟨value, stands, later⟩

theorem readElements_of_further (composed : Composed record slots) (known : ∀ s ∈ later, s ∈ slots)
    (short : parts.length ≤ later.length)
    (takes : TakesIn record.member (d, seen) ((later.map Slot.name).zip parts) after)
    (further : FurtherEntries ']' Bare s (unnamed parts) rest) (bound : s.length ≤ n) :
    Yields (Record.readElements false d (later.map Slot.field) s bound) after.1 rest := by
  induction parts generalizing later d seen s with
  | nil =>
    rw [List.zip_nil_right] at takes
    cases takes
    cases further with
    | none close => exact readElements_end (skipSpace_of_spaced close rfl) bound
  | cons part parts ih =>
    cases later with
    | nil => cases short
    | cons slot later =>
      obtain ⟨listed, known⟩ := List.forall_mem_cons.mp known
      obtain ⟨value, stands, takes⟩ := composed.takesIn_element listed takes
      cases further with
      | some comma space further =>
        have here := skipSpace_of_spaced comma rfl
        have first := (recognizes_field slot d).takes ⟨value, stands, rfl⟩
        obtain ⟨c, r, start, other⟩ := first.next space
        have taken := first.yields space
        have small : part.back.length ≤ n := by
          have shorter := taken.1
          have less := length_lt_of_skipSpace here
          omega
        rw [List.map_cons, readElements_comma here (by simpa [start] using other) taken bound small]
        exact ih known (Nat.le_of_succ_le_succ short) takes further small

theorem readElements_of_entries (composed : Composed record slots) (known : ∀ s ∈ later, s ∈ slots)
    (short : parts.length ≤ later.length)
    (takes : TakesIn record.member (d, seen) ((later.map Slot.name).zip parts) after)
    (entries : Entries ']' Bare s (unnamed parts) rest) (bound : s.length ≤ n) :
    Yields (Record.readElements true d (later.map Slot.field) s bound) after.1 rest := by
  cases parts with
  | nil =>
    rw [List.zip_nil_right] at takes
    cases takes
    cases entries with
    | none close => exact readElements_end (skipSpace_of_spaced close rfl) bound
  | cons part parts =>
    cases later with
    | nil => cases short
    | cons slot later =>
      obtain ⟨listed, known⟩ := List.forall_mem_cons.mp known
      obtain ⟨value, stands, takes⟩ := composed.takesIn_element listed takes
      cases entries with
      | some space further =>
        have first := (recognizes_field slot d).takes ⟨value, stands, rfl⟩
        obtain ⟨c, r, start, other⟩ := first.next space
        have taken := first.yields space
        have small : part.back.length ≤ n := Nat.le_trans (Nat.le_of_lt taken.1) bound
        rw [List.map_cons, readElements_first start other taken bound small]
        exact composed.readElements_of_further known (Nat.le_of_succ_le_succ short) takes further
          small

theorem takesIn_of_yields (composed : Composed record slots) (listed : slot ∈ slots)
    (new : slot.name ∉ seen) {next : δ} {back : List Char}
    (taken : Yields (slot.field.read d s) next back)
    (takes : TakesIn record.member (next, slot.name :: seen) members after) :
    TakesIn record.member (d, seen) ((slot.name, ⟨skipSpace s, back⟩) :: members) after := by
  obtain ⟨value, stands, rfl⟩ := (recognizes_field slot d).yields_iff.mp taken
  exact composed.takesIn_cons_iff.mpr (.inr ⟨slot, listed, rfl, new, value, stands, takes⟩)

theorem new_of_apart (apart : (slot :: later).Pairwise Slot.Apart)
    (new : ∀ s ∈ slot :: later, s.name ∉ seen) : ∀ s ∈ later, s.name ∉ slot.name :: seen := by
  intro s listed
  have other := (List.rel_of_pairwise_cons apart listed).1
  exact List.not_mem_cons_of_ne_of_not_mem other.symm (new s (List.mem_cons_of_mem _ listed))

theorem entries_of_readElements (composed : Composed record slots) (known : ∀ s ∈ later, s ∈ slots)
    (apart : later.Pairwise Slot.Apart) {first : Bool} {fields : List (Field δ)}
    (same : fields = later.map Slot.field) {bound : s.length ≤ n}
    (taken : Yields (Record.readElements first d fields s bound) e rest)
    (new : ∀ slot ∈ later, slot.name ∉ seen) :
    ∃ parts, parts.length ≤ later.length ∧
      (∃ after, TakesIn record.member (d, seen) ((later.map Slot.name).zip parts) (e, after)) ∧
      if first then Entries ']' Bare s (unnamed parts) rest
      else FurtherEntries ']' Bare s (unnamed parts) rest := by
  fun_induction Record.readElements first d fields s bound generalizing later seen with
  | case2 first draft fields s bound r next =>
    obtain ⟨rfl, rfl⟩ := yields_ok_iff.mp taken
    have close : Spaced s (']' :: r) := (spaced_iff rfl).mpr next
    refine ⟨[], Nat.zero_le _, ⟨seen, ?_⟩, ?_⟩
    · rw [List.zip_nil_right]
      exact .nil _
    · split
      · exact .none close
      · exact .none close
  | case5 d s bound c r next _ some_left f fs p read ih =>
    cases later with
    | nil => cases same
    | cons slot later =>
      obtain ⟨rfl, rfl⟩ := List.cons.inj same
      obtain ⟨listed, known⟩ := List.forall_mem_cons.mp known
      obtain ⟨parts, short, ⟨after, takes⟩, further⟩ :=
        ih known apart.tail rfl taken (new_of_apart apart new)
      have unmet := new slot List.mem_cons_self
      exact ⟨⟨skipSpace s, p.rest⟩ :: parts, Nat.succ_le_succ short,
        ⟨after, composed.takesIn_of_yields listed unmet (read ▸ yields_ok p) takes⟩,
        .some (spaced_skipSpace s) further⟩
  | case8 first d s bound r f fs not_first _ p read next _ _ ih =>
    obtain rfl := Bool.eq_false_iff.mpr not_first
    cases later with
    | nil => cases same
    | cons slot later =>
      obtain ⟨rfl, rfl⟩ := List.cons.inj same
      obtain ⟨listed, known⟩ := List.forall_mem_cons.mp known
      obtain ⟨parts, short, ⟨after, takes⟩, further⟩ :=
        ih known apart.tail rfl taken (new_of_apart apart new)
      have unmet := new slot List.mem_cons_self
      exact ⟨⟨skipSpace r, p.rest⟩ :: parts, Nat.succ_le_succ short,
        ⟨after, composed.takesIn_of_yields listed unmet (read ▸ yields_ok p) takes⟩,
        .some ((spaced_iff rfl).mpr next) (spaced_skipSpace r) further⟩
  | _ => exact (not_yields_error taken).elim

end Elements

theorem formed_of_allGiven (given : AllGiven slots members d e) : AllFormed members := by
  intro m listed
  by_cases known : m.1 ∈ slots.map Slot.name
  · obtain ⟨slot, member, same⟩ := List.mem_map.mp known
    have found : m ∈ members.filter (·.1 == slot.name) :=
      List.mem_filter.mpr ⟨listed, beq_iff_eq.mpr same.symm⟩
    rcases given.2 slot member with ⟨none, -⟩ | ⟨part, one, b, stands, -⟩
    · rw [none] at found
      cases found
    · rw [one] at found
      obtain rfl := List.mem_singleton.mp found
      exact slot.recognizes.formed stands
  · exact given.1 m listed known

theorem recognizes (composed : Composed record slots) :
    Recognizes record.read (recordForm slots record) where
  yields_iff := by
    intro s rest a
    rw [yields_record_iff]
    constructor
    · rintro ⟨r, bound, ⟨next, ⟨draft, seen⟩, taken, complete⟩ | ⟨next, draft, taken, complete⟩⟩
      · obtain ⟨members, takes, entries⟩ := entries_of_readMembers composed.exact_member taken
        exact ⟨members, draft, .inl ⟨r, next, entries⟩, composed.takesIn_iff.mp ⟨seen, takes⟩,
          complete⟩
      · obtain ⟨parts, short, takes, entries⟩ := composed.entries_of_readElements
          (fun _ member => member) composed.apart composed.fields taken
          fun _ _ => List.not_mem_nil
        exact ⟨_, draft, .inr ⟨parts, by simpa using short, ⟨r, next, entries⟩, rfl⟩,
          composed.takesIn_iff.mp takes, complete⟩
    · rintro ⟨members, draft, ⟨r, next, entries⟩ | ⟨parts, short, ⟨r, next, entries⟩, rfl⟩, given,
        complete⟩
      · obtain ⟨seen, takes⟩ := composed.takesIn_iff.mpr given
        exact ⟨r, length_le_of_skipSpace next, .inl ⟨next, (draft, seen),
          readMembers_of_entries takes entries _, complete⟩⟩
      · obtain ⟨seen, takes⟩ := composed.takesIn_iff.mpr given
        have bound := length_le_of_skipSpace next
        have taken := composed.readElements_of_entries (fun _ member => member)
          (by simpa using short) takes entries bound
        rw [← composed.fields] at taken
        exact ⟨r, bound, .inr ⟨next, draft, taken, complete⟩⟩
  formed := by
    rintro text rest a ⟨members, draft, cut, given, -⟩
    exact wellFormed_of_record cut (formed_of_allGiven given)

end Composed

end HotReload.Json
