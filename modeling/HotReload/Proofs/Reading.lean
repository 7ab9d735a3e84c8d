import HotReload.Json.Grammar
import HotReload.Json.Typed
import Mathlib.Data.Nat.Init

namespace HotReload.Json

variable {α β : Type} {n : Nat}

def Yields (result : Except Fault (Parsed α n)) (value : α) (rest : List Char) : Prop :=
  ∃ shorter, result = .ok ⟨value, rest, shorter⟩

theorem yields_ok (p : Parsed α n) : Yields (.ok p) p.value p.rest := ⟨p.shorter, rfl⟩

theorem yields_ok_iff {p : Parsed α n} {a : α} {rest : List Char} :
    Yields (.ok p) a rest ↔ p.value = a ∧ p.rest = rest := by
  constructor
  · rintro ⟨shorter, same⟩
    cases same
    exact ⟨rfl, rfl⟩
  · rintro ⟨rfl, rfl⟩
    exact yields_ok p

theorem not_yields_error {e : Fault} {a : α} {rest : List Char} :
    ¬ Yields (.error e : Except Fault (Parsed α n)) a rest := by
  rintro ⟨_, same⟩
  cases same

theorem yields_map_iff {result : Except Fault (Parsed α n)} {f : α → β} {b : β}
    {rest : List Char} :
    Yields (result.map (Parsed.map f)) b rest ↔ ∃ a, Yields result a rest ∧ f a = b := by
  constructor
  · intro taken
    cases result with
    | error e => exact (not_yields_error taken).elim
    | ok p =>
      obtain ⟨rfl, rfl⟩ := yields_ok_iff.mp taken
      exact ⟨p.value, yields_ok p, rfl⟩
  · rintro ⟨a, ⟨shorter, rfl⟩, rfl⟩
    exact ⟨shorter, rfl⟩

theorem Yields.map {result : Except Fault (Parsed α n)} {a : α} {rest : List Char}
    (taken : Yields result a rest) (f : α → β) : Yields (result.map (Parsed.map f)) (f a) rest :=
  yields_map_iff.mpr ⟨a, taken, rfl⟩

theorem Yields.unique {result : Except Fault (Parsed α n)} {a b : α} {rest tail : List Char}
    (first : Yields result a rest) (second : Yields result b tail) : a = b ∧ rest = tail := by
  obtain ⟨_, rfl⟩ := first
  exact yields_ok_iff.mp second

theorem yields_readWord_iff {value a : α} {word s rest : List Char} {bound : s.length < n} :
    Yields (readWord value word s bound) a rest ↔ s = word ++ rest ∧ value = a := by
  induction word generalizing s with
  | nil =>
    rw [readWord, yields_ok_iff]
    exact and_comm
  | cons w word ih =>
    cases s with
    | nil => simp [readWord, not_yields_error]
    | cons c s =>
      rw [readWord]
      split
      · rename_i same
        rw [ih, List.cons_append, List.cons.injEq, and_iff_right same]
      · rename_i other
        simp [not_yields_error, other]

theorem yields_readHex4_iff {s rest : List Char} {u : Nat} (bound : s.length < n) :
    Yields (readHex4 s bound) u rest ↔ Hex4 s u rest := by
  constructor
  · intro taken
    unfold readHex4 at taken
    split at taken
    · rename_i a b c d r _
      split at taken
      · rename_i w x y z first second third fourth
        obtain ⟨rfl, rfl⟩ := yields_ok_iff.mp taken
        exact ⟨a, b, c, d, w, x, y, z, rfl, first, second, third, fourth, rfl⟩
      · exact (not_yields_error taken).elim
    · split at taken
      all_goals exact (not_yields_error taken).elim
  · rintro ⟨a, b, c, d, w, x, y, z, rfl, first, second, third, fourth, rfl⟩
    simp only [readHex4, first, second, third, fourth]
    exact yields_ok _

theorem yields_readLowHalf_iff {high : Nat} {c : Char} {s rest : List Char}
    (bound : s.length < n) :
    Yields (readLowHalf high s bound) c rest ↔ ∃ next v, s = '\\' :: 'u' :: next ∧
      Hex4 next v rest ∧ IsLowHalf v ∧
      Char.ofNat (0x10000 + (high - 0xD800) * 1024 + (v - 0xDC00)) = c := by
  constructor
  · intro taken
    unfold readLowHalf at taken
    split at taken
    · exact (not_yields_error taken).elim
    · exact (not_yields_error taken).elim
    · rename_i next _
      split at taken
      · exact (not_yields_error taken).elim
      · rename_i low read
        split at taken
        · rename_i half
          obtain ⟨same, rfl⟩ := yields_ok_iff.mp taken
          have digits := (yields_readHex4_iff _).mp (read ▸ yields_ok low)
          simp only [Parsed.map] at same
          exact ⟨next, low.value, rfl, digits, half, same⟩
        · exact (not_yields_error taken).elim
    · exact (not_yields_error taken).elim
  · rintro ⟨next, v, rfl, digits, half, rfl⟩
    have small : next.length < n := by
      simp only [List.length_cons] at bound
      omega
    obtain ⟨_, read⟩ := (yields_readHex4_iff small).mpr digits
    simp only [readLowHalf, read, Parsed.map]
    rw [if_pos half]
    exact ⟨_, rfl⟩

theorem yields_readEscape_iff {c : Char} {s rest : List Char} (bound : s.length < n) :
    Yields (readEscape s bound) c rest ↔ Escape s c rest := by
  constructor
  · intro taken
    unfold readEscape at taken
    split at taken
    · exact (not_yields_error taken).elim
    · rename_i next _
      split at taken
      · exact (not_yields_error taken).elim
      · rename_i u read
        have digits := (yields_readHex4_iff _).mp (read ▸ yields_ok u)
        split at taken
        · rename_i high
          obtain ⟨text, v, behind, second, low, rfl⟩ := (yields_readLowHalf_iff _).mp taken
          rw [behind] at digits
          exact .pair digits high second low
        · rename_i not_high
          split at taken
          · exact (not_yields_error taken).elim
          · rename_i not_low
            obtain ⟨rfl, rfl⟩ := yields_ok_iff.mp taken
            exact .code digits not_high not_low
    · split at taken
      · rename_i known
        obtain ⟨rfl, rfl⟩ := yields_ok_iff.mp taken
        exact .simple known
      · exact (not_yields_error taken).elim
  · intro escape
    cases escape with
    | simple known =>
      rw [readEscape]
      · simp only [known]
        exact yields_ok _
      · rintro rfl
        cases known
    | code digits not_high not_low =>
      obtain ⟨_, read⟩ := (yields_readHex4_iff (length_lt_of_succ_lt bound)).mpr digits
      simp only [readEscape, read]
      rw [if_neg not_high, if_neg not_low]
      exact yields_ok _
    | pair first high second low =>
      obtain ⟨shorter, read⟩ := (yields_readHex4_iff (length_lt_of_succ_lt bound)).mpr first
      simp only [readEscape, read]
      rw [if_pos high]
      exact (yields_readLowHalf_iff shorter).mpr ⟨_, _, rfl, second, low, rfl⟩

theorem yields_readQuoted_iff {done s rest : List Char} {v : String} (bound : s.length < n) :
    Yields (readQuoted done s bound) v rest ↔
      ∃ cs, Spells s cs rest ∧ String.ofList (done.reverse ++ cs) = v := by
  constructor
  · intro taken
    fun_induction readQuoted done s bound with
    | case1 => exact (not_yields_error taken).elim
    | case2 =>
      obtain ⟨rfl, rfl⟩ := yields_ok_iff.mp taken
      exact ⟨[], .close, by rw [List.append_nil]⟩
    | case3 => exact (not_yields_error taken).elim
    | case4 done r _ c read _ ih =>
      obtain ⟨cs, later, rfl⟩ := ih taken
      have escape := (yields_readEscape_iff _).mp (read ▸ yields_ok c)
      exact ⟨c.value :: cs, .escape escape later, by simp⟩
    | case5 => exact (not_yields_error taken).elim
    | case6 done c r bound not_quote not_backslash shown _ ih =>
      obtain ⟨cs, later, rfl⟩ := ih taken
      refine ⟨c :: cs, .plain ?_ ?_ (Nat.le_of_not_lt shown) later, by simp⟩
      · rintro rfl
        exact not_quote rfl
      · rintro rfl
        exact not_backslash rfl
  · rintro ⟨cs, spelled, rfl⟩
    induction spelled generalizing n done with
    | close =>
      rw [readQuoted, List.append_nil]
      exact yields_ok _
    | plain not_quote not_backslash shown later ih =>
      rw [readQuoted, if_neg (Nat.not_lt_of_le shown)]
      · simpa using @ih n (_ :: done) (length_lt_of_succ_lt bound)
      · exact not_quote
      · exact not_backslash
    | escape escape later ih =>
      obtain ⟨shorter, read⟩ := (yields_readEscape_iff (length_lt_succ _)).mpr escape
      rw [readQuoted, read]
      simpa using @ih n (_ :: done) (by simp only [List.length_cons] at bound; omega)

theorem yields_literal_iff {s rest : List Char} {v : String} (bound : s.length < n) :
    Yields (readQuoted [] s bound) v rest ↔ Spells s v.toList rest := by
  rw [yields_readQuoted_iff]
  constructor
  · rintro ⟨cs, spelled, rfl⟩
    rwa [List.reverse_nil, List.nil_append, String.toList_ofList]
  · intro spelled
    exact ⟨v.toList, spelled, by rw [List.reverse_nil, List.nil_append, String.ofList_toList]⟩

end HotReload.Json
