import HotReload.Json.WellFormed
import HotReload.Proofs.MoreText
import Mathlib.Data.List.TakeWhile

namespace HotReload.Json

variable {n : Nat} {s r text rest : List Char}

section Numbers

open Numeral (isDigit)

variable {cut : Fault} {ds : List Char}

def NoDigit (rest : List Char) : Prop := ∀ c, rest.head? = some c → isDigit c = false

theorem digits_span_iff :
    r.takeWhile isDigit = ds ∧ r.dropWhile isDigit = rest ↔
      (∀ d ∈ ds, isDigit d = true) ∧ NoDigit rest ∧ r = ds ++ rest := by
  constructor
  · rintro ⟨rfl, rfl⟩
    refine ⟨fun d member => List.mem_takeWhile_imp member, ?_, List.takeWhile_append_dropWhile.symm⟩
    intro c front
    have stopped := List.head?_dropWhile_not isDigit r
    rw [front] at stopped
    simpa using stopped
  · rintro ⟨digits, ended, rfl⟩
    rw [List.takeWhile_append_of_pos digits, List.dropWhile_append_of_pos digits]
    cases rest with
    | nil => simp
    | cons c rest => simp [ended c rfl]

theorem yields_readDigits_iff (bound : s.length ≤ n) :
    Yields (readDigits cut s bound) ds rest ↔ AreDigits ds ∧ NoDigit rest ∧ s = ds ++ rest := by
  cases s with
  | nil =>
    refine iff_of_false not_yields_error ?_
    rintro ⟨⟨some_digit, -⟩, -, split⟩
    exact some_digit (List.append_eq_nil_iff.mp split.symm).1
  | cons c r =>
    unfold readDigits
    dsimp only
    split
    · rename_i digit
      rw [yields_ok_iff]
      constructor
      · rintro ⟨rfl, rfl⟩
        obtain ⟨digits, ended, split⟩ := digits_span_iff.mp ⟨rfl, rfl⟩
        refine ⟨⟨List.cons_ne_nil _ _, List.forall_mem_cons.mpr ⟨digit, digits⟩⟩, ended, ?_⟩
        exact congrArg (c :: ·) split
      · rintro ⟨⟨some_digit, digits⟩, ended, split⟩
        obtain ⟨d, ds, rfl⟩ := List.ne_nil_iff_exists_cons.mp some_digit
        obtain ⟨rfl, rfl⟩ := List.cons.inj split
        obtain ⟨taken, left⟩ :=
          digits_span_iff.mpr ⟨(List.forall_mem_cons.mp digits).2, ended, rfl⟩
        exact ⟨congrArg (c :: ·) taken, left⟩
    · rename_i other
      refine iff_of_false not_yields_error ?_
      rintro ⟨⟨some_digit, digits⟩, -, split⟩
      obtain ⟨d, ds, rfl⟩ := List.ne_nil_iff_exists_cons.mp some_digit
      obtain ⟨rfl, -⟩ := List.cons.inj split
      exact other (List.forall_mem_cons.mp digits).1

theorem yields_readInteger_iff (bound : s.length ≤ n) :
    Yields (readInteger cut s bound) ds rest ↔ IsWhole ds ∧ NoDigit rest ∧ s = ds ++ rest := by
  unfold readInteger
  split
  · rename_i c r _
    split
    · rename_i digit
      refine iff_of_false not_yields_error ?_
      rintro ⟨rfl | ⟨⟨some_digit, -⟩, not_zero⟩, ended, split⟩
      · obtain ⟨-, rfl⟩ := List.cons.inj split
        exact absurd digit (by simp [ended c rfl])
      · obtain ⟨d, ds, rfl⟩ := List.ne_nil_iff_exists_cons.mp some_digit
        obtain ⟨rfl, -⟩ := List.cons.inj split
        exact not_zero rfl
    · rename_i other
      rw [yields_ok_iff]
      constructor
      · rintro ⟨rfl, rfl⟩
        refine ⟨.inl rfl, ?_, rfl⟩
        rintro d ⟨⟩
        exact Bool.eq_false_iff.mpr other
      · rintro ⟨rfl | ⟨⟨some_digit, -⟩, not_zero⟩, ended, split⟩
        · exact ⟨rfl, (List.cons.inj split).2⟩
        · obtain ⟨d, ds, rfl⟩ := List.ne_nil_iff_exists_cons.mp some_digit
          obtain ⟨rfl, -⟩ := List.cons.inj split
          exact (not_zero rfl).elim
  · rename_i no_zero
    rw [yields_readDigits_iff]
    constructor
    · rintro ⟨digits, ended, rfl⟩
      refine ⟨?_, ended, rfl⟩
      obtain ⟨d, ds, rfl⟩ := List.ne_nil_iff_exists_cons.mp digits.1
      by_cases zero : d = '0'
      · subst zero
        cases ds with
        | nil => exact .inl rfl
        | cons e ds => exact (no_zero _ _ _ rfl HEq.rfl).elim
      · exact .inr ⟨digits, by simpa using zero⟩
    · rintro ⟨rfl | ⟨digits, -⟩, ended, rfl⟩
      · cases rest with
        | nil => exact ⟨⟨by simp, by simp; rfl⟩, ended, rfl⟩
        | cons c rest => exact (no_zero _ _ _ rfl HEq.rfl).elim
      · exact ⟨digits, ended, rfl⟩

theorem yields_readFraction_iff (bound : s.length < n) :
    (∃ ds, Yields (readFraction cut s bound) ds rest) ↔
      ∃ fraction, IsFraction fraction ∧ s = fraction ++ rest ∧
        (fraction = [] → rest.head? ≠ some '.') ∧ (fraction ≠ [] → NoDigit rest) := by
  unfold readFraction
  split
  · rename_i r _
    constructor
    · rintro ⟨ds, taken⟩
      obtain ⟨digits, ended, rfl⟩ := (yields_readDigits_iff _).mp taken
      exact ⟨'.' :: ds, .inr ⟨ds, digits, rfl⟩, rfl, nofun, fun _ => ended⟩
    · rintro ⟨fraction, rfl | ⟨ds, digits, rfl⟩, split, no_point, ended⟩
      · exact (no_point rfl (congrArg List.head? split.symm)).elim
      · obtain ⟨-, rfl⟩ := List.cons.inj split
        exact ⟨ds, (yields_readDigits_iff _).mpr ⟨digits, ended (List.cons_ne_nil _ _), rfl⟩⟩
  · rename_i no_point
    constructor
    · rintro ⟨ds, taken⟩
      obtain ⟨-, rfl⟩ := yields_ok_iff.mp taken
      refine ⟨[], .inl rfl, rfl, fun _ front => ?_, fun some => (some rfl).elim⟩
      obtain ⟨r, rfl⟩ := List.head?_eq_some_iff.mp front
      exact no_point _ _ rfl HEq.rfl
    · rintro ⟨fraction, rfl | ⟨ds, -, rfl⟩, rfl, -, -⟩
      · exact ⟨[], yields_ok _⟩
      · exact (no_point _ _ rfl HEq.rfl).elim

theorem exists_yields_map_iff {α β : Type} {result : Except Fault (Parsed α n)} {f : α → β} :
    (∃ b, Yields (result.map (Parsed.map f)) b rest) ↔ ∃ a, Yields result a rest := by
  simp only [yields_map_iff]
  constructor
  · rintro ⟨-, a, taken, -⟩
    exact ⟨a, taken⟩
  · rintro ⟨a, taken⟩
    exact ⟨f a, a, taken, rfl⟩

theorem AreDigits.front_ne (digits : AreDigits ds) {c : Char} (other : isDigit c = false)
    (split : c :: r = ds ++ rest) : False := by
  obtain ⟨d, ds, rfl⟩ := List.ne_nil_iff_exists_cons.mp digits.1
  obtain ⟨rfl, -⟩ := List.cons.inj split
  rw [digits.2 c List.mem_cons_self] at other
  cases other

theorem IsWhole.areDigits (is_whole : IsWhole ds) : AreDigits ds := by
  rcases is_whole with rfl | ⟨digits, -⟩
  · refine ⟨List.cons_ne_nil _ _, ?_⟩
    intro c listed
    obtain rfl := List.mem_singleton.mp listed
    rfl
  · exact digits

def SignedDigits (s rest : List Char) : Prop :=
  ∃ sign ds, (sign = [] ∨ sign = ['-'] ∨ sign = ['+']) ∧ AreDigits ds ∧ NoDigit rest ∧
    s = sign ++ (ds ++ rest)

theorem signedDigits_sign_iff {c : Char} (sign : c = '-' ∨ c = '+') :
    SignedDigits (c :: r) rest ↔ ∃ ds, AreDigits ds ∧ NoDigit rest ∧ r = ds ++ rest := by
  constructor
  · rintro ⟨front, ds, rfl | rfl | rfl, digits, ended, split⟩
    · have other : isDigit c = false := by rcases sign with rfl | rfl <;> rfl
      exact (digits.front_ne other split).elim
    · exact ⟨ds, digits, ended, (List.cons.inj split).2⟩
    · exact ⟨ds, digits, ended, (List.cons.inj split).2⟩
  · rintro ⟨ds, digits, ended, rfl⟩
    rcases sign with rfl | rfl
    · exact ⟨['-'], ds, .inr (.inl rfl), digits, ended, rfl⟩
    · exact ⟨['+'], ds, .inr (.inr rfl), digits, ended, rfl⟩

theorem signedDigits_plain_iff (no_minus : ∀ r, s ≠ '-' :: r) (no_plus : ∀ r, s ≠ '+' :: r) :
    SignedDigits s rest ↔ ∃ ds, AreDigits ds ∧ NoDigit rest ∧ s = ds ++ rest := by
  constructor
  · rintro ⟨sign, ds, rfl | rfl | rfl, digits, ended, split⟩
    · exact ⟨ds, digits, ended, split⟩
    · exact (no_minus _ split).elim
    · exact (no_plus _ split).elim
  · rintro ⟨ds, digits, ended, split⟩
    exact ⟨[], ds, .inl rfl, digits, ended, split⟩

def NoLetter (rest : List Char) : Prop := rest.head? ≠ some 'e' ∧ rest.head? ≠ some 'E'

/-- A power stands at the front, up to its end, or nothing and no letter of one. -/
def TakesPower (s rest : List Char) : Prop :=
  ∃ power, IsPower power ∧ s = power ++ rest ∧ (power = [] → NoLetter rest) ∧
    (power ≠ [] → NoDigit rest)

theorem takesPower_letter_iff {c : Char} (letter : c = 'e' ∨ c = 'E') :
    TakesPower (c :: r) rest ↔ SignedDigits r rest := by
  constructor
  · rintro ⟨power, rfl | ⟨e, sign, ds, -, is_sign, digits, rfl⟩, split, no_letter, ended⟩
    · rw [List.nil_append] at split
      subst split
      rcases letter with rfl | rfl
      · exact ((no_letter rfl).1 rfl).elim
      · exact ((no_letter rfl).2 rfl).elim
    · obtain ⟨-, rfl⟩ := List.cons.inj split
      exact ⟨sign, ds, is_sign, digits, ended (List.cons_ne_nil _ _), List.append_assoc _ _ _⟩
  · rintro ⟨sign, ds, is_sign, digits, ended, rfl⟩
    refine ⟨c :: (sign ++ ds), .inr ⟨c, sign, ds, letter, is_sign, digits, rfl⟩, ?_,
      fun none => (List.cons_ne_nil _ _ none).elim, fun _ => ended⟩
    rw [List.cons_append, List.append_assoc]

theorem takesPower_plain_iff (no_letter : NoLetter s) : TakesPower s rest ↔ s = rest := by
  constructor
  · rintro ⟨power, rfl | ⟨e, sign, ds, rfl | rfl, -, -, rfl⟩, split, -, -⟩
    · exact split
    · exact (no_letter.1 (congrArg List.head? split)).elim
    · exact (no_letter.2 (congrArg List.head? split)).elim
  · rintro rfl
    exact ⟨[], .inl rfl, rfl, fun _ => no_letter, fun some => (some rfl).elim⟩

theorem exists_yields_ok_iff {α : Type} {a : α} {bound : s.length < n} :
    (∃ x, Yields (.ok ⟨a, s, bound⟩ : Except Fault (Parsed α n)) x rest) ↔ s = rest := by
  constructor
  · rintro ⟨x, taken⟩
    exact (yields_ok_iff.mp taken).2
  · rintro rfl
    exact ⟨a, yields_ok _⟩

theorem yields_readExponent_iff (bound : s.length < n) :
    (∃ x, Yields (readExponent cut s bound) x rest) ↔ TakesPower s rest := by
  unfold readExponent
  split
  · rename_i c r _
    split
    · rename_i letter
      rw [takesPower_letter_iff letter]
      split
      · rw [signedDigits_sign_iff (.inl rfl), exists_yields_map_iff]
        simp only [yields_readDigits_iff]
      · rw [signedDigits_sign_iff (.inr rfl), exists_yields_map_iff]
        simp only [yields_readDigits_iff]
      · rename_i other_minus other_plus
        have no_minus : ∀ t, r ≠ '-' :: t := by
          rintro t rfl
          exact other_minus _ _ rfl HEq.rfl
        have no_plus : ∀ t, r ≠ '+' :: t := by
          rintro t rfl
          exact other_plus _ _ rfl HEq.rfl
        rw [signedDigits_plain_iff no_minus no_plus, exists_yields_map_iff]
        simp only [yields_readDigits_iff]
    · rename_i no_letter
      rw [takesPower_plain_iff, exists_yields_ok_iff]
      simpa [NoLetter] using no_letter
  · rw [takesPower_plain_iff, exists_yields_ok_iff]
    simp [NoLetter]

theorem noDigit_cons {c : Char} (other : isDigit c = false) : NoDigit (c :: rest) := by
  intro d front
  obtain rfl := Option.some.inj front
  exact other

/-- A power ends the digits in front of it, and no fraction begins with it. -/
theorem IsPower.front {power : List Char} (is_power : IsPower power) :
    power = [] ∨ ∀ rest, NoDigit (power ++ rest) ∧ (power ++ rest).head? ≠ some '.' := by
  rcases is_power with rfl | ⟨e, sign, ds, rfl | rfl, -, -, rfl⟩
  · exact .inl rfl
  · exact .inr fun rest => ⟨noDigit_cons rfl, by simp⟩
  · exact .inr fun rest => ⟨noDigit_cons rfl, by simp⟩

theorem IsFraction.front {fraction : List Char} (is_fraction : IsFraction fraction) :
    fraction = [] ∨ ∀ rest, NoDigit (fraction ++ rest) := by
  rcases is_fraction with rfl | ⟨ds, -, rfl⟩
  · exact .inl rfl
  · exact .inr fun rest => noDigit_cons rfl

theorem yields_readUnsigned_iff (bound : s.length ≤ n) :
    (∃ x, Yields (readUnsigned cut s bound) x rest) ↔ UnsignedNumber s rest := by
  constructor
  · rintro ⟨x, taken⟩
    unfold readUnsigned at taken
    split at taken
    · exact (not_yields_error taken).elim
    · rename_i whole read_whole
      split at taken
      · exact (not_yields_error taken).elim
      · rename_i fraction read_fraction
        split at taken
        · exact (not_yields_error taken).elim
        · rename_i power read_power
          obtain ⟨-, rfl⟩ := yields_ok_iff.mp taken
          obtain ⟨is_whole, no_digit, split⟩ :=
            (yields_readInteger_iff _).mp (read_whole ▸ yields_ok whole)
          obtain ⟨point, is_fraction, point_split, no_point, point_ended⟩ :=
            (yields_readFraction_iff _).mp ⟨_, read_fraction ▸ yields_ok fraction⟩
          obtain ⟨letter, is_power, letter_split, no_letter, letter_ended⟩ :=
            (yields_readExponent_iff _).mp ⟨_, read_power ▸ yields_ok power⟩
          refine ⟨_, point, letter, is_whole, is_fraction, is_power, ?_, ?_, no_letter, ?_⟩
          · rw [split, point_split, letter_split]
            rfl
          · show NoDigit power.rest
            by_cases with_power : letter = []
            · subst with_power
              rw [List.nil_append] at letter_split
              rw [letter_split] at point_split point_ended
              by_cases with_point : point = []
              · subst with_point
                rwa [point_split] at no_digit
              · exact point_ended with_point
            · exact letter_ended with_power
          · rintro rfl rfl
            rw [List.nil_append] at letter_split
            rw [letter_split] at no_point
            exact no_point rfl
  · rintro ⟨whole, fraction, power, is_whole, is_fraction, is_power, rfl, no_digit, no_letter,
      no_point⟩
    have power_front : NoDigit (power ++ rest) ∧
        (fraction = [] → (power ++ rest).head? ≠ some '.') := by
      rcases is_power.front with rfl | front
      · exact ⟨no_digit, fun no_fraction => no_point no_fraction rfl⟩
      · exact ⟨(front rest).1, fun _ => (front rest).2⟩
    have fraction_front : NoDigit (fraction ++ (power ++ rest)) := by
      rcases is_fraction.front with rfl | front
      · exact power_front.1
      · exact front _
    obtain ⟨shorter, first⟩ :
        Yields (readInteger cut _ bound) whole (fraction ++ (power ++ rest)) :=
      (yields_readInteger_iff bound).mpr ⟨is_whole, fraction_front, rfl⟩
    obtain ⟨ds, less, second⟩ : ∃ ds, Yields (readFraction cut _ shorter) ds (power ++ rest) :=
      (yields_readFraction_iff shorter).mpr
        ⟨fraction, is_fraction, rfl, power_front.2, fun _ => power_front.1⟩
    obtain ⟨x, _, third⟩ : ∃ x, Yields (readExponent cut _ less) x rest :=
      (yields_readExponent_iff less).mpr ⟨power, is_power, rfl, no_letter, fun _ => no_digit⟩
    simp only [readUnsigned, first, second, third]
    exact ⟨_, yields_ok _⟩

theorem yields_readNumber_iff (bound : s.length ≤ n) :
    (∃ x, Yields (readNumber cut s bound) x rest) ↔ Number s rest := by
  unfold readNumber
  split
  · rename_i r _
    rw [yields_readUnsigned_iff]
    constructor
    · exact fun unsigned => .inr ⟨r, unsigned, rfl⟩
    · rintro (⟨whole, fraction, power, is_whole, -, -, split, -⟩ | ⟨unsigned, number, same⟩)
      · exact (is_whole.areDigits.front_ne (by decide) split).elim
      · cases same
        exact number
  · rename_i no_minus
    rw [yields_readUnsigned_iff]
    constructor
    · exact .inl
    · rintro (number | ⟨unsigned, -, rfl⟩)
      · exact number
      · exact (no_minus _ _ rfl HEq.rfl).elim

end Numbers

section Scalars

variable {u : Unit} {c : Char}

theorem yields_skipQuoted_iff (bound : s.length < n) :
    Yields (skipQuoted s bound) u rest ↔ Literal s rest := by
  constructor
  · intro taken
    fun_induction skipQuoted s bound with
    | case2 =>
      obtain ⟨-, rfl⟩ := yields_ok_iff.mp taken
      exact .close
    | case5 r code read _ _ ih =>
      exact .code ((yields_readHex4_iff _).mp (read ▸ yields_ok code)) (ih taken)
    | case6 e r _ not_code known _ ih => exact .simple known (ih taken)
    | case9 c r _ not_quote not_backslash shown _ ih =>
      refine .plain ?_ ?_ (Nat.le_of_not_lt shown) (ih taken)
      · rintro rfl
        exact not_quote rfl
      · rintro rfl
        exact not_backslash rfl
    | _ => exact (not_yields_error taken).elim
  · intro literal
    induction literal generalizing n with
    | close =>
      rw [skipQuoted]
      exact yields_ok _
    | plain not_quote not_backslash shown _ ih =>
      rw [skipQuoted, if_neg (Nat.not_lt_of_le shown)]
      · exact ih _
      · exact not_quote
      · exact not_backslash
    | @simple c _ _ known _ ih =>
      have not_code : c ≠ 'u' := by
        rintro rfl
        cases known
      rw [skipQuoted]
      simp only [known, not_code, if_true, if_false]
      exact ih _
    | code digits _ ih =>
      obtain ⟨_, read⟩ := (yields_readHex4_iff (length_lt_succ _)).mpr digits
      rw [skipQuoted]
      simp only [read, if_true]
      exact ih _

theorem Number.starts (number : Number (c :: r) rest) :
    c = '-' ∨ Numeral.isDigit c = true := by
  rcases number with ⟨whole, _, _, is_whole, -, -, split, -⟩ | ⟨_, -, split⟩
  · refine .inr ?_
    rw [← Bool.not_eq_false]
    intro other
    exact is_whole.areDigits.front_ne other split
  · exact .inl (List.cons.inj split).1

theorem wellFormed_scalar_iff (not_square : c ≠ '[') (not_curly : c ≠ '\x7b') :
    WellFormed (c :: r) rest ↔ c = 'n' ∧ r = "ull".toList ++ rest ∨
      c = 't' ∧ r = "rue".toList ++ rest ∨ c = 'f' ∧ r = "alse".toList ++ rest ∨
      c = '"' ∧ Literal r rest ∨ Number (c :: r) rest := by
  constructor
  · intro formed
    generalize front : c :: r = text at formed
    cases formed with
    | null => exact .inl (List.cons.inj front)
    | true => exact .inr (.inl (List.cons.inj front))
    | false => exact .inr (.inr (.inl (List.cons.inj front)))
    | string literal =>
      obtain ⟨rfl, rfl⟩ := List.cons.inj front
      exact .inr (.inr (.inr (.inl ⟨rfl, literal⟩)))
    | number number => exact .inr (.inr (.inr (.inr (front ▸ number))))
    | @bracket b _ _ inside =>
      have opening := (List.cons.inj front).1
      cases b with
      | square => exact (not_square opening).elim
      | curly => exact (not_curly opening).elim
  · rintro (⟨rfl, rfl⟩ | ⟨rfl, rfl⟩ | ⟨rfl, rfl⟩ | ⟨rfl, literal⟩ | number)
    · exact .null
    · exact .true
    · exact .false
    · exact .string literal
    · exact .number number

theorem yields_skipScalar_iff (not_square : c ≠ '[') (not_curly : c ≠ '\x7b')
    (bound : r.length < n) : Yields (skipScalar c r bound) u rest ↔ WellFormed (c :: r) rest := by
  have no_number : ∀ d : Char, (d ≠ '-' ∧ Numeral.isDigit d = false) → ¬ Number (d :: r) rest := by
    rintro d ⟨not_minus, not_digit⟩ number
    rcases number.starts with minus | digit
    · exact not_minus minus
    · rw [digit] at not_digit
      cases not_digit
  rw [wellFormed_scalar_iff not_square not_curly]
  unfold skipScalar
  split
  · simp [yields_readWord_iff, no_number 'n' (by decide)]
  · simp [yields_readWord_iff, no_number 't' (by decide)]
  · simp [yields_readWord_iff, no_number 'f' (by decide)]
  · simp [yields_skipQuoted_iff, no_number '"' (by decide)]
  · rename_i not_null not_true not_false not_quote
    have apart : c ≠ 'n' ∧ c ≠ 't' ∧ c ≠ 'f' ∧ c ≠ '"' :=
      ⟨not_null, not_true, not_false, not_quote⟩
    split
    · have read : Yields ((readNumber .malformed (c :: r) bound).map (Parsed.map fun _ => ()))
          u rest ↔ ∃ v, Yields ((readNumber .malformed (c :: r) bound).map
            (Parsed.map fun _ => ())) v rest := by
        constructor
        · exact fun taken => ⟨u, taken⟩
        · rintro ⟨_, taken⟩
          exact taken
      rw [read, exists_yields_map_iff, yields_readNumber_iff]
      simp [apart]
    · rename_i other
      refine iff_of_false not_yields_error ?_
      simp only [apart, false_and, false_or]
      exact fun number => other number.starts

end Scalars

section Grammar

variable {b : Bracket} {c : Char}

theorem spaced_iff (solid : isSpace c = false) : Spaced s (c :: r) ↔ skipSpace s = c :: r := by
  constructor
  · exact fun spaced => skipSpace_of_spaced spaced solid
  · intro next
    refine ⟨s.takeWhile isSpace, fun d member => List.mem_takeWhile_imp member, ?_⟩
    rw [← next, skipSpace, List.takeWhile_append_dropWhile]

theorem isSpace_closing (b : Bracket) : isSpace b.closing = false := by
  cases b <;> rfl

theorem isSpace_of_isDigit (digit : Numeral.isDigit c = true) : isSpace c = false := by
  rw [Bool.eq_false_iff]
  intro space
  simp only [isSpace, Bool.or_eq_true, beq_iff_eq] at space
  rcases space with ((rfl | rfl) | rfl) | rfl
  all_goals cases digit

theorem Number.ne_nil (number : Number s rest) : s ≠ [] := by
  rintro rfl
  rcases number with ⟨whole, _, _, is_whole, -, -, split, -⟩ | ⟨_, -, split⟩
  · exact is_whole.areDigits.1 (List.append_eq_nil_iff.mp split.symm).1
  · cases split

theorem starts_of_wellFormed (formed : WellFormed text rest) :
    ∃ c r, text = c :: r ∧ isSpace c = false ∧ c ≠ ']' := by
  cases formed with
  | @bracket b =>
    refine ⟨_, _, rfl, ?_⟩
    cases b <;> decide
  | number number =>
    obtain ⟨c, r, rfl⟩ := List.ne_nil_iff_exists_cons.mp number.ne_nil
    refine ⟨c, r, rfl, ?_⟩
    rcases number.starts with rfl | digit
    · decide
    · refine ⟨isSpace_of_isDigit digit, ?_⟩
      rintro rfl
      cases digit
  | _ => exact ⟨_, _, rfl, rfl, by decide⟩

theorem spaced_wellFormed_iff :
    (∃ text, Spaced s text ∧ WellFormed text rest) ↔ WellFormed (skipSpace s) rest := by
  constructor
  · rintro ⟨text, spaced, formed⟩
    obtain ⟨c, r, rfl, solid, -⟩ := starts_of_wellFormed formed
    rw [skipSpace_of_spaced spaced solid]
    exact formed
  · intro formed
    obtain ⟨c, r, next, solid, -⟩ := starts_of_wellFormed formed
    exact ⟨skipSpace s, next ▸ (spaced_iff solid).mpr next, formed⟩

theorem wellFormed_bracket_iff : WellFormed (b.opening :: r) rest ↔ Inside b r rest := by
  constructor
  · intro formed
    generalize front : b.opening :: r = text at formed
    cases formed with
    | @bracket d _ _ inside =>
      obtain ⟨same, rfl⟩ := List.cons.inj front
      cases b <;> cases d
      · exact inside
      · cases same
      · cases same
      · exact inside
    | number number =>
      rw [← front] at number
      cases b <;> exact absurd number.starts (by decide)
    | _ =>
      have same := (List.cons.inj front).1
      cases b <;> cases same
  · exact .bracket

theorem entry_square_iff : Entry .square s rest ↔ WellFormed (skipSpace s) rest := by
  rw [← spaced_wellFormed_iff]
  constructor
  · rintro (⟨space, formed⟩)
    exact ⟨_, space, formed⟩
  · rintro ⟨text, space, formed⟩
    exact .item space formed

theorem entry_curly_iff :
    Entry .curly s rest ↔ ∃ name behind gap, skipSpace s = '"' :: name ∧ Literal name behind ∧
      skipSpace behind = ':' :: gap ∧ WellFormed (skipSpace gap) rest := by
  simp only [← spaced_wellFormed_iff, ← spaced_iff (show isSpace '"' = false from rfl),
    ← spaced_iff (show isSpace ':' = false from rfl)]
  constructor
  · rintro (_ | ⟨before, literal, colon, space, formed⟩)
    exact ⟨_, _, _, before, literal, colon, _, space, formed⟩
  · rintro ⟨name, behind, gap, before, literal, colon, text, space, formed⟩
    exact .member before literal colon space formed

theorem inside_iff :
    Inside b s rest ↔ skipSpace s = b.closing :: rest ∨
      ∃ next, Entry b s next ∧ FurtherInside b next rest := by
  rw [← spaced_iff (isSpace_closing b)]
  constructor
  · rintro (close | ⟨first, further⟩)
    · exact .inl close
    · exact .inr ⟨_, first, further⟩
  · rintro (close | ⟨next, first, further⟩)
    · exact .none close
    · exact .some first further

theorem furtherInside_iff :
    FurtherInside b s rest ↔ skipSpace s = b.closing :: rest ∨
      ∃ behind next, skipSpace s = ',' :: behind ∧ Entry b behind next ∧
        FurtherInside b next rest := by
  simp only [← spaced_iff (isSpace_closing b), ← spaced_iff (show isSpace ',' = false from rfl)]
  constructor
  · rintro (close | ⟨comma, first, further⟩)
    · exact .inl close
    · exact .inr ⟨_, _, comma, first, further⟩
  · rintro (close | ⟨behind, next, comma, first, further⟩)
    · exact .none close
    · exact .some comma first further

theorem starts_of_entry (entry : Entry b s rest) : ∃ c r, skipSpace s = c :: r ∧ c ≠ b.closing := by
  cases b with
  | square =>
    obtain ⟨c, r, next, -, other⟩ := starts_of_wellFormed (entry_square_iff.mp entry)
    exact ⟨c, r, next, other⟩
  | curly =>
    obtain ⟨name, _, _, next, -⟩ := entry_curly_iff.mp entry
    exact ⟨'"', name, next, by decide⟩

end Grammar

section Skipping

variable {b : Bracket} {state : Awaiting} {opened : List Bracket} {u : Unit}

/-- What closes the brackets that are open, innermost first. -/
def Closes : List Bracket → List Char → List Char → Prop
  | [], s, rest => s = rest
  | b :: outer, s, rest => ∃ next, FurtherInside b s next ∧ Closes outer next rest

def Completes : Awaiting → List Bracket → List Char → List Char → Prop
  | .value, opened, s, rest => ∃ next, WellFormed (skipSpace s) next ∧ Closes opened next rest
  | .member, opened, s, rest => ∃ next, Entry .curly s next ∧ Closes opened next rest
  | .first, b :: outer, s, rest => ∃ next, Inside b s next ∧ Closes outer next rest
  | .further, b :: outer, s, rest => Closes (b :: outer) s rest
  | _, [], _, _ => False

theorem completes_content : Completes b.content opened s rest ↔
    ∃ next, Entry b s next ∧ Closes opened next rest := by
  cases b with
  | square => simp only [Bracket.content, Completes, entry_square_iff]
  | curly => rfl

theorem completes_value_opening (next : skipSpace s = b.opening :: r) :
    Completes .value opened s rest ↔ Completes .first (b :: opened) r rest := by
  simp only [Completes, next, wellFormed_bracket_iff]

theorem completes_value_scalar {c : Char} (next : skipSpace s = c :: r) (not_square : c ≠ '[')
    (not_curly : c ≠ '\x7b') (bound : r.length < n) :
    Completes .value opened s rest ↔
      ∃ behind, Yields (skipScalar c r bound) () behind ∧ Closes opened behind rest := by
  simp only [Completes, next, yields_skipScalar_iff not_square not_curly]

theorem completes_member_iff :
    Completes .member opened s rest ↔ ∃ name behind gap, skipSpace s = '"' :: name ∧
      Literal name behind ∧ skipSpace behind = ':' :: gap ∧ Completes .value opened gap rest := by
  simp only [Completes, entry_curly_iff]
  constructor
  · rintro ⟨next, ⟨name, behind, gap, before, literal, colon, formed⟩, closes⟩
    exact ⟨name, behind, gap, before, literal, colon, next, formed, closes⟩
  · rintro ⟨name, behind, gap, before, literal, colon, next, formed, closes⟩
    exact ⟨next, ⟨name, behind, gap, before, literal, colon, formed⟩, closes⟩

theorem completes_member_quote (next : skipSpace s = '"' :: r) (bound : r.length < n) :
    Completes .member opened s rest ↔ ∃ behind, Yields (skipQuoted r bound) () behind ∧
      ∃ gap, skipSpace behind = ':' :: gap ∧ Completes .value opened gap rest := by
  rw [completes_member_iff]
  simp only [yields_skipQuoted_iff, next, List.cons.injEq, true_and]
  constructor
  · rintro ⟨name, behind, gap, rfl, literal, colon, completes⟩
    exact ⟨behind, literal, gap, colon, completes⟩
  · rintro ⟨behind, literal, gap, colon, completes⟩
    exact ⟨r, behind, gap, rfl, literal, colon, completes⟩

theorem completes_first_closing (next : skipSpace s = b.closing :: r) :
    Completes .first (b :: opened) s rest ↔ Closes opened r rest := by
  simp only [Completes, inside_iff, next]
  constructor
  · rintro ⟨behind, same | ⟨_, entry, -⟩, closes⟩
    · cases same
      exact closes
    · obtain ⟨c, _, front, other⟩ := starts_of_entry entry
      exact (other (List.cons.inj (front.symm.trans next)).1).elim
  · intro closes
    exact ⟨r, .inl rfl, closes⟩

theorem completes_first_iff {c : Char} (next : skipSpace s = c :: r) (some_left : c ≠ b.closing) :
    Completes .first (b :: opened) s rest ↔ Completes b.content (b :: opened) s rest := by
  rw [completes_content]
  simp only [Completes, Closes, inside_iff, next]
  constructor
  · rintro ⟨behind, same | ⟨middle, entry, further⟩, closes⟩
    · exact (some_left (List.cons.inj same).1).elim
    · exact ⟨middle, entry, behind, further, closes⟩
  · rintro ⟨middle, entry, behind, further, closes⟩
    exact ⟨behind, .inr ⟨middle, entry, further⟩, closes⟩

theorem completes_further_iff :
    Completes .further (b :: opened) s rest ↔
      (∃ r, skipSpace s = b.closing :: r ∧ Closes opened r rest) ∨
        ∃ r, skipSpace s = ',' :: r ∧ Completes b.content (b :: opened) r rest := by
  simp only [completes_content]
  simp only [Completes, Closes]
  constructor
  · rintro ⟨behind, further, closes⟩
    rcases furtherInside_iff.mp further with close | ⟨r, middle, comma, entry, later⟩
    · exact .inl ⟨behind, close, closes⟩
    · exact .inr ⟨r, comma, middle, entry, behind, later, closes⟩
  · rintro (⟨r, close, closes⟩ | ⟨r, comma, middle, entry, behind, later, closes⟩)
    · exact ⟨r, furtherInside_iff.mpr (.inl close), closes⟩
    · exact ⟨behind, furtherInside_iff.mpr (.inr ⟨r, middle, comma, entry, later⟩), closes⟩

theorem completes_further_closing (next : skipSpace s = b.closing :: r) :
    Completes .further (b :: opened) s rest ↔ Closes opened r rest := by
  have no_comma : b.closing ≠ ',' := by cases b <;> decide
  simp [completes_further_iff, next, no_comma]

theorem starts_of_completes (completes : Completes state opened s rest) : skipSpace s ≠ [] := by
  intro empty
  match state, opened with
  | .value, opened =>
    obtain ⟨_, formed, -⟩ := completes
    obtain ⟨_, _, front, -⟩ := starts_of_wellFormed formed
    cases front.symm.trans empty
  | .member, opened =>
    obtain ⟨_, _, _, front, -⟩ := completes_member_iff.mp completes
    cases front.symm.trans empty
  | .first, b :: outer =>
    obtain ⟨_, inside, -⟩ := completes
    rcases inside_iff.mp inside with close | ⟨_, entry, -⟩
    · cases close.symm.trans empty
    · obtain ⟨_, _, front, -⟩ := starts_of_entry entry
      cases front.symm.trans empty
  | .further, b :: outer =>
    rcases completes_further_iff.mp completes with ⟨_, close, -⟩ | ⟨_, comma, -⟩
    · cases close.symm.trans empty
    · cases comma.symm.trans empty

theorem yields_skipRest_iff (bound : s.length ≤ n) :
    Yields (skipRest state opened s bound) u rest ↔ Completes state opened s rest := by
  fun_induction skipRest state opened s bound with
  | case1 state opened s bound empty =>
    exact iff_of_false not_yields_error fun completes => starts_of_completes completes empty
  | case2 s bound r opened next _ ih => rw [ih, completes_value_opening (b := .square) next]
  | case3 s bound r opened next _ _ ih => rw [ih, completes_value_opening (b := .curly) next]
  | case4 s bound c r next less opened not_square not_curly e failed =>
    rw [completes_value_scalar next not_square not_curly less, failed]
    simp only [not_yields_error, false_and, exists_false]
  | case5 s bound c r next less opened not_square not_curly p read _ outside =>
    obtain rfl := List.isEmpty_iff.mp outside
    rw [completes_value_scalar next not_square not_curly less, read]
    simp [yields_ok_iff, Closes, Parsed.widen]
  | case6 s bound c r next less opened not_square not_curly p read _ inside ih =>
    obtain ⟨b, outer, rfl⟩ := List.ne_nil_iff_exists_cons.mp (by simpa using inside)
    rw [ih, completes_value_scalar next not_square not_curly less, read]
    simp [yields_ok_iff, Completes]
  | case7 s bound r opened e next less failed =>
    rw [completes_member_quote next less, failed]
    simp only [not_yields_error, false_and, exists_false]
  | case8 s bound r opened p empty next less read =>
    rw [completes_member_quote next less, read]
    simp [yields_ok_iff, not_yields_error, empty]
  | case9 s bound r opened p gap _ next less read colon _ ih =>
    rw [ih, completes_member_quote next less, read]
    simp [yields_ok_iff, colon]
  | case10 s bound r opened p c gap there _ _ other next less read =>
    rw [completes_member_quote next less, read]
    simp [yields_ok_iff, not_yields_error, there, other]
  | case11 s bound c r next less opened other =>
    refine iff_of_false not_yields_error fun completes => ?_
    obtain ⟨_, _, _, same, -⟩ := completes_member_iff.mp completes
    cases next.symm.trans same
    exact other rfl
  | case12 state s bound c r next less not_value not_member =>
    refine iff_of_false not_yields_error fun completes => ?_
    rcases Awaiting.first_or_further not_value not_member with rfl | rfl
    · exact completes
    · exact completes
  | case13 s bound r state b outer not_value not_member outside next less =>
    obtain rfl := List.isEmpty_iff.mp outside
    have closing : Completes state [b] s rest ↔ r = rest := by
      rcases Awaiting.first_or_further not_value not_member with rfl | rfl
      · exact completes_first_closing next
      · exact completes_further_closing next
    rw [closing, yields_ok_iff]
    exact and_iff_right rfl
  | case14 s bound r state b outer not_value not_member inside next less ih =>
    obtain ⟨d, further, rfl⟩ := List.ne_nil_iff_exists_cons.mp (by simpa using inside)
    rw [ih]
    rcases Awaiting.first_or_further not_value not_member with rfl | rfl
    · exact (completes_first_closing next).symm
    · exact (completes_further_closing next).symm
  | case15 s bound c r next _ b outer some_left _ _ ih =>
    rw [ih, completes_first_iff next some_left]
  | case16 s bound r state b outer not_value not_member not_first next _ some_left ih =>
    obtain rfl := (Awaiting.first_or_further not_value not_member).resolve_left not_first
    rw [ih, completes_further_iff]
    simp [next, some_left]
  | case17 s bound c r next _ state b outer not_value not_member some_left not_first no_comma =>
    obtain rfl := (Awaiting.first_or_further not_value not_member).resolve_left not_first
    rw [completes_further_iff]
    simp [next, some_left, no_comma, not_yields_error]

theorem yields_skipValue_iff : Yields (skipValue s) u rest ↔ WellFormed (skipSpace s) rest := by
  rw [skipValue, yields_skipRest_iff]
  simp [Completes, Closes]

end Skipping

end HotReload.Json
