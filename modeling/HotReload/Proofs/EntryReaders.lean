import HotReload.Json.Layout
import HotReload.Proofs.SkippedValues

/-! The readers of arrays and objects against the entries that stand there.
Each reader takes exactly the texts of one form, and so the loops over items and members take
exactly the texts that are cut into such entries. -/
namespace HotReload.Json

variable {α β σ : Type} {n : Nat} {s text rest : List Char}

theorem skipSpace_eq_of_spaced (spaced : Spaced s text) : skipSpace s = skipSpace text := by
  obtain ⟨space, blank, rfl⟩ := spaced
  rw [skipSpace, skipSpace, List.dropWhile_append_of_pos blank]

theorem spaced_skipSpace (s : List Char) : Spaced s (skipSpace s) :=
  ⟨s.takeWhile isSpace, fun _ member => List.mem_takeWhile_imp member,
    List.takeWhile_append_dropWhile.symm⟩

theorem skipSpace_skipSpace (s : List Char) : skipSpace (skipSpace s) = skipSpace s :=
  (skipSpace_eq_of_spaced (spaced_skipSpace s)).symm

theorem skipSpace_of_wellFormed (formed : WellFormed text rest) : skipSpace text = text := by
  obtain ⟨c, r, rfl, solid, -⟩ := starts_of_wellFormed formed
  exact skipSpace_self solid

/-- The reader takes the part up to its end, also with white space in front. -/
structure Takes (read : Reader α) (part : Part) (a : α) : Prop where
  yields : ∀ ⦃s : List Char⦄, Spaced s part.front → Yields (read s) a part.back
  starts : ∃ c r, part.front = c :: r ∧ isSpace c = false ∧ c ≠ ']'

section Takes

variable {read : Reader α} {part : Part} {a : α}

theorem Takes.map (takes : Takes read part a) (f : α → β) :
    Takes (fun s => (read s).map (Parsed.map f)) part (f a) where
  yields := fun _ spaced => (takes.yields spaced).map f
  starts := takes.starts

theorem Takes.next (takes : Takes read part a) (spaced : Spaced s part.front) :
    ∃ c r, skipSpace s = c :: r ∧ c ≠ ']' := by
  obtain ⟨c, r, front, solid, other⟩ := takes.starts
  exact ⟨c, r, skipSpace_of_spaced (front ▸ spaced) solid, other⟩

end Takes

/-- The reader takes the texts of this form, with white space in front, and no others. All of
them are texts of values. -/
structure Recognizes (read : Reader α) (form : Form α) : Prop where
  yields_iff : ∀ {s rest : List Char} {a : α}, Yields (read s) a rest ↔ form (skipSpace s) a rest
  formed : ∀ {text rest : List Char} {a : α}, form text a rest → WellFormed text rest

namespace Recognizes

variable {read : Reader α} {form : Form α} {part : Part} {a b : α}

theorem yields (recognizes : Recognizes read form) (spaced : Spaced s text)
    (stands : form text a rest) : Yields (read s) a rest := by
  have formed := recognizes.formed stands
  rw [recognizes.yields_iff, skipSpace_eq_of_spaced spaced, skipSpace_of_wellFormed formed]
  exact stands

theorem takes (recognizes : Recognizes read form) (stands : form part.front a part.back) :
    Takes read part a where
  yields := fun _ spaced => recognizes.yields spaced stands
  starts := starts_of_wellFormed (recognizes.formed stands)

theorem of_takes (recognizes : Recognizes read form) (takes : Takes read part a) :
    form part.front a part.back := by
  have taken := takes.yields (spaced_self _)
  obtain ⟨c, r, front, solid, -⟩ := takes.starts
  rw [recognizes.yields_iff, front, skipSpace_self solid, ← front] at taken
  exact taken

theorem congr {other : Form α} (recognizes : Recognizes read form)
    (same : ∀ {text a rest}, form text a rest ↔ other text a rest) : Recognizes read other where
  yields_iff := recognizes.yields_iff.trans same
  formed := fun stands => recognizes.formed (same.mpr stands)

/-- A text stands for one value and ends in one place. -/
theorem unique (recognizes : Recognizes read form) {tail : List Char} (first : form text a rest)
    (second : form text b tail) : a = b ∧ rest = tail :=
  (recognizes.yields (spaced_self text) first).unique (recognizes.yields (spaced_self text) second)

theorem map (recognizes : Recognizes read form) (f : α → β) :
    Recognizes (fun s => (read s).map (Parsed.map f))
      fun text b rest => ∃ a, form text a rest ∧ f a = b where
  yields_iff := by
    intro s rest b
    simp only [yields_map_iff, recognizes.yields_iff]
  formed := by
    rintro text rest b ⟨a, stands, -⟩
    exact recognizes.formed stands

end Recognizes

section Items

variable {item : Reader α} {form : Form α} {parts : List Part} {as : List α}

abbrev PartsStand (form : Form α) (parts : List Part) (as : List α) : Prop :=
  List.Forall₂ (fun part a => form part.front a part.back) parts as

def unnamed (parts : List Part) : List (Unit × Part) := parts.map fun part => ((), part)

theorem readItems_of_further (taken : List.Forall₂ (Takes item) parts as)
    (further : FurtherEntries ']' Bare s (unnamed parts) rest) (done : List α)
    (bound : s.length ≤ n) :
    Yields (readItems item false done s bound) (done.reverse ++ as) rest := by
  induction taken generalizing s done with
  | nil =>
    cases further with
    | none close =>
      rw [List.append_nil]
      exact readItems_end (skipSpace_of_spaced close rfl) bound
  | @cons part a parts as takes _ ih =>
    cases further with
    | some comma space further =>
      have here := skipSpace_of_spaced comma rfl
      obtain ⟨c, r, start, other⟩ := takes.next space
      have first := takes.yields space
      have small : part.back.length ≤ n := by
        have shorter := first.1
        have less := length_lt_of_skipSpace here
        omega
      rw [readItems_comma here (by simpa [start] using other) first bound small]
      simpa using ih further (a :: done) small

theorem readItems_of_entries (taken : List.Forall₂ (Takes item) parts as)
    (entries : Entries ']' Bare s (unnamed parts) rest) (bound : s.length ≤ n) :
    Yields (readItems item true [] s bound) as rest := by
  cases taken with
  | nil =>
    cases entries with
    | none close => exact readItems_end (skipSpace_of_spaced close rfl) bound
  | @cons part a parts as takes taken =>
    cases entries with
    | some space further =>
      obtain ⟨c, r, start, other⟩ := takes.next space
      have first := takes.yields space
      have small : part.back.length ≤ n := Nat.le_trans (Nat.le_of_lt first.1) bound
      rw [readItems_first start other first bound small]
      exact readItems_of_further taken further [a] small

theorem entries_of_readItems (recognizes : Recognizes item form) {first : Bool} {done all : List α}
    {bound : s.length ≤ n} (taken : Yields (readItems item first done s bound) all rest) :
    ∃ parts as, all = done.reverse ++ as ∧ PartsStand form parts as ∧
      if first then Entries ']' Bare s (unnamed parts) rest
      else FurtherEntries ']' Bare s (unnamed parts) rest := by
  fun_induction readItems item first done s bound with
  | case2 first done s bound r next =>
    obtain ⟨rfl, rfl⟩ := yields_ok_iff.mp taken
    have close : Spaced s (']' :: r) := (spaced_iff rfl).mpr next
    refine ⟨[], [], (List.append_nil _).symm, .nil, ?_⟩
    split
    · exact .none close
    · exact .none close
  | case4 done s bound c r next _ some_left p read _ ih =>
    obtain ⟨parts, as, rfl, stand, further⟩ := ih taken
    have stands := recognizes.yields_iff.mp (read ▸ yields_ok p)
    exact ⟨⟨skipSpace s, p.rest⟩ :: parts, p.value :: as, by simp, .cons stands stand,
      .some (spaced_skipSpace s) further⟩
  | case7 first done s bound r not_first _ p read _ next _ _ ih =>
    obtain rfl := Bool.eq_false_iff.mpr not_first
    obtain ⟨parts, as, rfl, stand, further⟩ := ih taken
    have stands := recognizes.yields_iff.mp (read ▸ yields_ok p)
    exact ⟨⟨skipSpace r, p.rest⟩ :: parts, p.value :: as, by simp, .cons stands stand,
      .some ((spaced_iff rfl).mpr next) (spaced_skipSpace r) further⟩
  | _ => exact (not_yields_error taken).elim

end Items

section Members

variable {member : σ → String → Except Fault (Reader σ)} {state after : σ}
  {members : List (String × Part)}

/-- The members are taken in one by one, from one state to another. -/
inductive TakesIn (member : σ → String → Except Fault (Reader σ)) :
    σ → List (String × Part) → σ → Prop where
  | nil (state : σ) : TakesIn member state [] state
  | cons {k : String} {part : Part} {members : List (String × Part)} {read : Reader σ}
      {state next after : σ} (known : member state k = .ok read) (takes : Takes read part next)
      (later : TakesIn member next members after) :
      TakesIn member state ((k, part) :: members) after

theorem readMembers_of_label (first : Bool) {c : Char} {r : List Char} {k : String} {part : Part}
    {read : Reader σ} (next : skipSpace s = c :: r) (some_left : c ≠ '\x7d')
    (comma : first = true ∨ c = ',') (label : Label (if first then c :: r else r) k part.front)
    (known : member state k = .ok read) (takes : Takes read part after) (bound : s.length ≤ n) :
    ∃ small : part.back.length ≤ n, readMembers member first state s bound =
      readMembers member false after part.back small := by
  obtain ⟨name, behind, gap, before, literal, colon, space⟩ := label
  have start := skipSpace_of_spaced before rfl
  have here := skipSpace_of_spaced colon rfl
  have taken := takes.yields space
  have small : part.back.length ≤ n := by
    have back_lt := taken.1
    have gap_lt := length_lt_of_skipSpace here
    have behind_lt := ((yields_literal_iff (length_lt_succ name)).mpr literal).1
    have name_lt := length_lt_of_skipSpace start
    have front := length_lt_of_skipSpace next
    split at name_lt
    · simp only [List.length_cons] at name_lt
      omega
    · omega
  exact ⟨small, readMembers_member next some_left comma start literal known here taken bound small⟩

theorem readMembers_of_further (takes : TakesIn member state members after)
    (further : FurtherEntries '\x7d' Label s members rest) (bound : s.length ≤ n) :
    Yields (readMembers member false state s bound) after rest := by
  induction takes generalizing s with
  | nil state =>
    cases further with
    | none close => exact readMembers_end (skipSpace_of_spaced close rfl) bound
  | cons known takes _ ih =>
    cases further with
    | some comma label further =>
      have here := skipSpace_of_spaced comma rfl
      obtain ⟨small, step⟩ := readMembers_of_label false here (by decide) (.inr rfl)
        label known takes bound
      rw [step]
      exact ih further small

theorem readMembers_of_entries (takes : TakesIn member state members after)
    (entries : Entries '\x7d' Label s members rest) (bound : s.length ≤ n) :
    Yields (readMembers member true state s bound) after rest := by
  cases takes with
  | nil =>
    cases entries with
    | none close => exact readMembers_end (skipSpace_of_spaced close rfl) bound
  | cons known takes later =>
    cases entries with
    | some label further =>
      obtain ⟨name, behind, gap, before, label⟩ := label
      have next := skipSpace_of_spaced before rfl
      obtain ⟨small, step⟩ := readMembers_of_label true next (by decide) (.inl rfl)
        ⟨name, behind, gap, spaced_self _, label⟩ known takes bound
      rw [step]
      exact readMembers_of_further later further small

theorem entries_of_readMembers
    (exact_reads : ∀ {state k read}, member state k = .ok read → ∃ form, Recognizes read form)
    {first : Bool} {bound : s.length ≤ n}
    (taken : Yields (readMembers member first state s bound) after rest) :
    ∃ members, TakesIn member state members after ∧
      if first then Entries '\x7d' Label s members rest
      else FurtherEntries '\x7d' Label s members rest := by
  fun_induction readMembers member first state s bound with
  | case2 first state s bound r next =>
    obtain ⟨rfl, rfl⟩ := yields_ok_iff.mp taken
    have close : Spaced s ('\x7d' :: r) := (spaced_iff rfl).mpr next
    refine ⟨[], .nil _, ?_⟩
    split
    · exact .none close
    · exact .none close
  | case11 first state s bound c r next _ some_left passed d name start _ quote key literal _ read
      known e gap colon _ at_colon p value _ ih =>
    obtain ⟨members, takes, further⟩ := ih taken
    obtain ⟨form, recognizes⟩ := exact_reads known
    obtain rfl := Decidable.not_not.mp quote
    obtain rfl := Decidable.not_not.mp at_colon
    have stands := recognizes.yields_iff.mp (value ▸ yields_ok p)
    have spelled := (yields_literal_iff _).mp (literal ▸ yields_ok key)
    refine ⟨(key.value, ⟨skipSpace gap, p.rest⟩) :: members,
      .cons known (recognizes.takes stands) takes, ?_⟩
    cases first with
    | true =>
      have before : skipSpace s = '"' :: name := by
        rw [← skipSpace_skipSpace, next]
        exact start
      exact .some ⟨name, key.rest, gap, (spaced_iff rfl).mpr before, spelled,
        (spaced_iff rfl).mpr colon, spaced_skipSpace gap⟩ further
    | false =>
      obtain rfl : c = ',' := by simpa using passed
      exact .some ((spaced_iff rfl).mpr next) ⟨name, key.rest, gap, (spaced_iff rfl).mpr start,
        spelled, (spaced_iff rfl).mpr colon, spaced_skipSpace gap⟩ further
  | _ => exact (not_yields_error taken).elim

end Members

end HotReload.Json
