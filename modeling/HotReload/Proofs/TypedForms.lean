import HotReload.Proofs.EntryReaders

namespace HotReload.Json

variable {α : Type} {s text rest : List Char}

section Formed

theorem Spells.literal {cs : List Char} (spelled : Spells text cs rest) : Literal text rest := by
  induction spelled with
  | close => exact .close
  | plain not_quote not_backslash shown _ ih => exact .plain not_quote not_backslash shown ih
  | escape escape _ ih =>
    cases escape with
    | simple known => exact .simple (Option.isSome_iff_exists.mpr ⟨_, known⟩) ih
    | code digits => exact .code digits ih
    | pair first _ second => exact .code first (.code second ih)

variable {κ : Type} {b : Bracket} {lead : Form κ} {entries : List (κ × Part)}

theorem further_of_entries
    (entry : ∀ {text : List Char} {k : κ} {part : Part}, lead text k part.front →
      WellFormed part.front part.back → Entry b text part.back)
    (further : FurtherEntries b.closing lead s entries rest)
    (formed : AllFormed entries) : FurtherInside b s rest := by
  induction further with
  | none close => exact .none close
  | some comma first _ ih =>
    obtain ⟨value, later⟩ := List.forall_mem_cons.mp formed
    exact .some comma (entry first value) (ih later)

theorem inside_of_entries
    (entry : ∀ {text : List Char} {k : κ} {part : Part}, lead text k part.front →
      WellFormed part.front part.back → Entry b text part.back)
    (within : Entries b.closing lead s entries rest)
    (formed : AllFormed entries) : Inside b s rest := by
  cases within with
  | none close => exact .none close
  | some first further =>
    obtain ⟨value, later⟩ := List.forall_mem_cons.mp formed
    exact .some (entry first value) (further_of_entries entry further later)

theorem wellFormed_of_array {parts : List Part} (cut : ArrayParts text parts rest)
    (formed : ∀ part ∈ parts, WellFormed part.front part.back) : WellFormed text rest := by
  obtain ⟨body, rfl, entries⟩ := cut
  refine .bracket (b := .square) (inside_of_entries (b := .square) .item entries ?_)
  intro e listed
  obtain ⟨part, member, rfl⟩ := List.mem_map.mp listed
  exact formed part member

theorem wellFormed_of_object {members : List (String × Part)}
    (cut : ObjectParts text members rest)
    (formed : AllFormed members) : WellFormed text rest := by
  obtain ⟨body, rfl, entries⟩ := cut
  refine .bracket (b := .curly) (inside_of_entries (b := .curly) ?_ entries formed)
  rintro text k part ⟨name, behind, gap, before, spelled, colon, space⟩ value
  exact .member before spelled.literal colon space value

end Formed

section Scalars

theorem recognizes_string : Recognizes readString stringForm where
  yields_iff := by
    intro s rest v
    rw [yields_readString_iff]
    constructor
    · rintro ⟨r, next, literal⟩
      rw [stringForm, next]
      exact .string literal
    · intro written
      unfold stringForm at written
      generalize skipSpace s = text at written
      cases written with
      | string literal => exact ⟨_, rfl, literal⟩
  formed := by
    intro text rest v written
    cases written with
    | string literal => exact .string literal.literal

theorem recognizes_bool : Recognizes readBool boolForm where
  yields_iff := by
    intro s rest b
    rw [yields_readBool_iff]
    constructor
    · intro next
      rw [boolForm, next]
      cases b with
      | false => exact .false
      | true => exact .true
    · intro written
      unfold boolForm at written
      generalize skipSpace s = text at written
      cases written <;> rfl
  formed := by
    intro text rest b written
    cases written with
    | true => exact .true
    | false => exact .false

theorem Recognizes.optional {read : Reader α} {form : Form α} (recognizes : Recognizes read form)
    (given : ∀ {r a rest}, ¬ form ('n' :: r) a rest) :
    Recognizes (readOptional read) (optionalForm form) where
  yields_iff := by
    intro s rest v
    rw [yields_readOptional_iff, optionalForm]
    constructor
    · rintro (⟨r, next, rfl, rfl⟩ | ⟨-, a, taken, rfl⟩)
      · rw [next]
        exact .inl ⟨rfl, .null⟩
      · exact .inr ⟨a, rfl, recognizes.yields_iff.mp taken⟩
    · rintro (⟨rfl, written⟩ | ⟨a, rfl, stands⟩)
      · generalize skipSpace s = text at written
        cases written with
        | null => exact .inl ⟨_, rfl, rfl, rfl⟩
      · refine .inr ⟨fun r next => ?_, a, recognizes.yields_iff.mpr stands, rfl⟩
        rw [next] at stands
        exact given stands
  formed := by
    rintro text rest v (⟨rfl, written⟩ | ⟨a, rfl, stands⟩)
    · cases written with
      | null => exact .null
    · exact recognizes.formed stands

end Scalars

section Lists

variable {item : Reader α} {form : Form α}

theorem PartsStand.formed (recognizes : Recognizes item form) {parts : List Part} {as : List α}
    (stand : PartsStand form parts as) : ∀ part ∈ parts, WellFormed part.front part.back := by
  induction stand with
  | nil => exact fun _ member => by cases member
  | cons stands _ ih => exact List.forall_mem_cons.mpr ⟨recognizes.formed stands, ih⟩

theorem Recognizes.list (recognizes : Recognizes item form) :
    Recognizes (readList item) (listForm form) where
  yields_iff := by
    intro s rest as
    rw [yields_readList_iff]
    constructor
    · rintro ⟨r, bound, next, taken⟩
      obtain ⟨parts, all, rfl, stand, entries⟩ := entries_of_readItems recognizes taken
      exact ⟨parts, ⟨r, next, entries⟩, stand⟩
    · rintro ⟨parts, ⟨r, next, entries⟩, stand⟩
      have taken := stand.imp fun _ _ => recognizes.takes
      exact ⟨r, length_le_of_skipSpace next, next, readItems_of_entries taken entries _⟩
  formed := by
    rintro text rest as ⟨parts, cut, stand⟩
    exact wellFormed_of_array cut (PartsStand.formed recognizes stand)

end Lists

section Pairs

variable {value : Reader α} {form : Form α} {members : List (String × Part)}
  {done after ps : List (String × α)}

abbrev MembersStand (form : Form α) (members : List (String × Part)) (ps : List (String × α)) :
    Prop :=
  List.Forall₂ (fun m p => m.1 = p.1 ∧ form m.2.front p.2 m.2.back) members ps

theorem MembersStand.formed (recognizes : Recognizes value form)
    (stand : MembersStand form members ps) : AllFormed members := by
  induction stand with
  | nil => exact fun _ member => by cases member
  | cons stands _ ih => exact List.forall_mem_cons.mpr ⟨recognizes.formed stands.2, ih⟩

theorem takesIn_pairs (recognizes : Recognizes value form) (stand : MembersStand form members ps)
    (done : List (String × α)) :
    TakesIn (addPair value) done members (ps.reverse ++ done) := by
  induction stand generalizing done with
  | nil => exact .nil done
  | @cons m p members ps stands _ ih =>
    obtain ⟨name, part⟩ := m
    obtain ⟨k, a⟩ := p
    obtain ⟨rfl, here⟩ := stands
    rw [List.reverse_cons, List.append_assoc]
    exact .cons rfl ((recognizes.takes here).map fun v => (name, v) :: done) (ih _)

theorem pairs_of_takesIn (recognizes : Recognizes value form)
    (takes : TakesIn (addPair value) done members after) :
    ∃ ps, after = ps.reverse ++ done ∧ MembersStand form members ps := by
  induction takes with
  | nil done => exact ⟨[], rfl, .nil⟩
  | @cons k part members read done next after known takes _ ih =>
    obtain ⟨ps, rfl, later⟩ := ih
    cases known
    obtain ⟨a, first, rfl⟩ := (recognizes.map _).of_takes takes
    exact ⟨(k, a) :: ps, by simp, .cons ⟨rfl, first⟩ later⟩

theorem Recognizes.pairs (recognizes : Recognizes value form) :
    Recognizes (readPairs value) (pairsForm form) where
  yields_iff := by
    intro s rest ps
    rw [yields_readPairs_iff]
    constructor
    · rintro ⟨r, bound, next, taken⟩
      obtain ⟨members, takes, entries⟩ := entries_of_readMembers
        (fun known => by cases known; exact ⟨_, recognizes.map _⟩) taken
      obtain ⟨found, same, stand⟩ := pairs_of_takesIn recognizes takes
      rw [List.append_nil, List.reverse_inj] at same
      exact ⟨members, ⟨r, next, entries⟩, same ▸ stand⟩
    · rintro ⟨members, ⟨r, next, entries⟩, stand⟩
      have takes := takesIn_pairs recognizes stand []
      rw [List.append_nil] at takes
      exact ⟨r, length_le_of_skipSpace next, next, readMembers_of_entries takes entries _⟩
  formed := by
    rintro text rest ps ⟨members, cut, stand⟩
    exact wellFormed_of_object cut (MembersStand.formed recognizes stand)

end Pairs

end HotReload.Json
