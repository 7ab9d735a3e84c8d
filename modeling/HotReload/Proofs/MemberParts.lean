import HotReload.Proofs.JsonStrings
import HotReload.Proofs.RecordLayouts

/-! A text is cut into entries in one way only, if each entry has the text of one value. So it can
be said which value stands at a member of a record. -/
namespace HotReload.Json

variable {text s rest tail : List Char}

theorem wellFormed_unique (first : WellFormed text rest) (second : WellFormed text tail) :
    rest = tail :=
  (recognizes_skip.unique (a := ()) (b := ()) first second).2

theorem spaced_unique {c d : Char} (first : Spaced s (c :: rest)) (second : Spaced s (d :: tail))
    (solid : isSpace c = false) (other_solid : isSpace d = false) : c = d ∧ rest = tail :=
  List.cons.inj
    ((skipSpace_of_spaced first solid).symm.trans (skipSpace_of_spaced second other_solid))

theorem skipSpace_of_spaced_wellFormed (spaced : Spaced s text) (formed : WellFormed text rest) :
    skipSpace s = text :=
  (skipSpace_eq_of_spaced spaced).trans (skipSpace_of_wellFormed formed)

section Entries

variable {κ : Type} {closing : Char} {lead : Form κ} {entries others : List (κ × Part)}

/-- The lead of an entry ends where its value begins, and no entry begins with the end of the
bracket. -/
structure Sharp (closing : Char) (lead : Form κ) : Prop where
  solid : isSpace closing = false
  no_comma : closing ≠ ','
  unique : ∀ {text front back value rest : List Char} {k l : κ}, lead text k front →
    lead text l value → WellFormed front back → WellFormed value rest → k = l ∧ front = value
  more : ∀ {text front back rest : List Char} {k : κ}, lead text k front →
    WellFormed front back → ¬ Spaced text (closing :: rest)

theorem sharp_bare : Sharp ']' Bare where
  solid := rfl
  no_comma := by decide
  unique := by
    intro text front back value rest k l first second formed other_formed
    have here := skipSpace_of_spaced_wellFormed first formed
    exact ⟨rfl, here.symm.trans (skipSpace_of_spaced_wellFormed second other_formed)⟩
  more := by
    intro text front back rest k lead formed close
    obtain ⟨c, r, rfl, -, other⟩ := starts_of_wellFormed formed
    have here := skipSpace_of_spaced_wellFormed lead formed
    exact other (List.cons.inj (here.symm.trans (skipSpace_of_spaced close rfl))).1

theorem sharp_label : Sharp '\x7d' Label where
  solid := rfl
  no_comma := by decide
  unique := by
    rintro text front back value rest k l ⟨name, behind, gap, before, literal, colon, space⟩
      ⟨_, _, _, other_before, other_literal, other_colon, other_space⟩ formed other_formed
    obtain ⟨-, rfl⟩ := spaced_unique before other_before rfl rfl
    obtain ⟨same, rfl⟩ := literal.unique other_literal
    obtain ⟨-, rfl⟩ := spaced_unique colon other_colon rfl rfl
    have here := skipSpace_of_spaced_wellFormed space formed
    exact ⟨String.toList_inj.mp same,
      here.symm.trans (skipSpace_of_spaced_wellFormed other_space other_formed)⟩
  more := by
    rintro text front back rest k ⟨name, behind, gap, before, -⟩ - close
    exact absurd (spaced_unique before close rfl rfl).1 (by decide)

namespace Sharp

theorem entry_unique (sharp : Sharp closing lead) {k l : κ} {part other : Part}
    (first : lead s k part.front) (second : lead s l other.front)
    (formed : WellFormed part.front part.back) (other_formed : WellFormed other.front other.back) :
    (k, part) = (l, other) := by
  obtain ⟨rfl, same⟩ := sharp.unique first second formed other_formed
  obtain ⟨front, back⟩ := part
  obtain ⟨_, other_back⟩ := other
  obtain rfl : front = _ := same
  obtain rfl : back = other_back := wellFormed_unique formed other_formed
  rfl

theorem further_unique (sharp : Sharp closing lead)
    (first : FurtherEntries closing lead s entries rest) (formed : AllFormed entries)
    (second : FurtherEntries closing lead s others tail) (others_formed : AllFormed others) :
    entries = others ∧ rest = tail := by
  induction first generalizing others with
  | none close =>
    cases second with
    | none again => exact ⟨rfl, (spaced_unique close again sharp.solid sharp.solid).2⟩
    | some comma => exact (sharp.no_comma (spaced_unique close comma sharp.solid rfl).1).elim
  | some comma first _ ih =>
    cases second with
    | none close => exact (sharp.no_comma (spaced_unique close comma sharp.solid rfl).1).elim
    | some again second further =>
      obtain ⟨here, formed⟩ := List.forall_mem_cons.mp formed
      obtain ⟨there, others_later⟩ := List.forall_mem_cons.mp others_formed
      obtain ⟨-, rfl⟩ := spaced_unique comma again rfl rfl
      cases sharp.entry_unique first second here there
      obtain ⟨rfl, same⟩ := ih formed further others_later
      exact ⟨rfl, same⟩

theorem entries_unique (sharp : Sharp closing lead)
    (first : Entries closing lead s entries rest) (formed : AllFormed entries)
    (second : Entries closing lead s others tail) (others_formed : AllFormed others) :
    entries = others ∧ rest = tail := by
  cases first with
  | none close =>
    cases second with
    | none again => exact ⟨rfl, (spaced_unique close again sharp.solid sharp.solid).2⟩
    | some second =>
      exact (sharp.more second (List.forall_mem_cons.mp others_formed).1 close).elim
  | some first further =>
    obtain ⟨here, formed⟩ := List.forall_mem_cons.mp formed
    cases second with
    | none close => exact (sharp.more first here close).elim
    | some second other_further =>
      obtain ⟨there, others_later⟩ := List.forall_mem_cons.mp others_formed
      cases sharp.entry_unique first second here there
      obtain ⟨rfl, same⟩ := sharp.further_unique further formed other_further others_later
      exact ⟨rfl, same⟩

end Sharp

end Entries

section Records

variable {names : List String} {members others : List (String × Part)}

theorem recordParts_unique (first : RecordParts names text members rest)
    (formed : AllFormed members) (second : RecordParts names text others tail)
    (others_formed : AllFormed others) : members = others := by
  have parts_formed : ∀ {parts : List Part}, parts.length ≤ names.length →
      AllFormed (names.zip parts) → AllFormed (unnamed parts) := by
    intro parts short formed e listed
    obtain ⟨part, member, rfl⟩ := List.mem_map.mp listed
    exact formed_of_zip short formed part member
  rcases first with ⟨body, rfl, entries⟩ | ⟨parts, short, ⟨body, rfl, entries⟩, rfl⟩
  · rcases second with ⟨_, same, other_entries⟩ | ⟨_, _, ⟨_, impossible, _⟩, _⟩
    · cases same
      exact (sharp_label.entries_unique entries formed other_entries others_formed).1
    · cases impossible
  · rcases second with ⟨_, impossible, _⟩ | ⟨others, other_short, ⟨_, same, other_entries⟩, rfl⟩
    · cases impossible
    · cases same
      have both := (sharp_bare.entries_unique entries (parts_formed short formed) other_entries
        (parts_formed other_short others_formed)).1
      rw [List.map_injective_iff.mpr (fun _ _ same => (Prod.mk.inj same).2) both]

/-- Where a member stands, it is the one that gives the value. -/
theorem gives_of_hasMember {α : Type} {record : Part} {name : String} {value : Part}
    {form : Form α} {absent a : α} (has : HasMember names record name value)
    (cut : RecordParts names record.front members rest) (formed : AllFormed members)
    (given : MayGive members name form absent a) : form value.front a value.back := by
  obtain ⟨others, other_cut, others_formed, listed⟩ := has
  obtain rfl := recordParts_unique cut formed other_cut others_formed
  have found : (name, value) ∈ members.filter (·.1 == name) :=
    List.mem_filter.mpr ⟨listed, BEq.rfl⟩
  rcases given with ⟨none, -⟩ | ⟨part, one, stands⟩
  · rw [none] at found
    cases found
  · rw [one] at found
    cases List.mem_singleton.mp found
    exact stands

end Records

end HotReload.Json
