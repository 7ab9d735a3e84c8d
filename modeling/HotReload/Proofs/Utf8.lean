import HotReload.Text.Utf8

namespace HotReload.Utf8

theorem toNat_ofNat_of_lt {n : Nat} (small : n < 256) : (UInt8.ofNat n).toNat = n := by
  rw [UInt8.toNat_ofNat']
  omega

theorem pieceAfter_ascii {a : UInt8} (low : a.toNat < 0x80) (r : List UInt8) :
    pieceAfter a r = (.char (Char.ofNat a.toNat), r) := by
  unfold pieceAfter
  simp only [low, if_true]

theorem pieceAfter_two {a b : UInt8} (low : 0xC2 ≤ a.toNat) (high : a.toNat < 0xE0)
    (continues : isContinuation b = true) (r : List UInt8) :
    pieceAfter a (b :: r) =
      (.char (Char.ofNat ((a.toNat - 0xC0) * 64 + payload b)), r) := by
  have not_ascii : ¬ a.toNat < 0x80 := by omega
  have first : ¬ (a.toNat < 0xC2 ∨ 0xF5 ≤ a.toNat) := by omega
  simp only [pieceAfter, not_ascii, first, high, continues, if_true, if_false]

theorem pieceAfter_three {a b c : UInt8} (low : 0xE0 ≤ a.toNat) (high : a.toNat < 0xF0)
    (follows : mayFollow a b = true) (continues : isContinuation c = true) (r : List UInt8) :
    pieceAfter a (b :: c :: r) =
      (.char (Char.ofNat ((a.toNat - 0xE0) * 4096 + payload b * 64 + payload c)), r) := by
  have not_ascii : ¬ a.toNat < 0x80 := by omega
  have first : ¬ (a.toNat < 0xC2 ∨ 0xF5 ≤ a.toNat) := by omega
  have not_two : ¬ a.toNat < 0xE0 := by omega
  simp only [pieceAfter, not_ascii, first, not_two, high, follows, continues, Bool.not_true,
    Bool.false_eq_true, if_true, if_false]

theorem pieceAfter_four {a b c d : UInt8} (low : 0xF0 ≤ a.toNat) (high : a.toNat < 0xF5)
    (follows : mayFollow a b = true) (third : isContinuation c = true)
    (fourth : isContinuation d = true) (r : List UInt8) :
    pieceAfter a (b :: c :: d :: r) =
      (.char (Char.ofNat ((a.toNat - 0xF0) * 262144 + payload b * 4096 + payload c * 64 +
        payload d)), r) := by
  have not_ascii : ¬ a.toNat < 0x80 := by omega
  have first : ¬ (a.toNat < 0xC2 ∨ 0xF5 ≤ a.toNat) := by omega
  have not_two : ¬ a.toNat < 0xE0 := by omega
  have not_three : ¬ a.toNat < 0xF0 := by omega
  simp only [pieceAfter, not_ascii, first, not_two, not_three, follows, third, fourth,
    Bool.not_true, Bool.false_eq_true, if_true, if_false]

/-- The six low bits of a continuation byte come back out of it. -/
theorem continuation_ofNat {n : Nat} (small : n < 64) :
    isContinuation (UInt8.ofNat (0x80 + n)) = true ∧ payload (UInt8.ofNat (0x80 + n)) = n := by
  have value := toNat_ofNat_of_lt (n := 0x80 + n) (by omega)
  constructor
  · simp only [isContinuation, value, Bool.and_eq_true, decide_eq_true_eq]
    omega
  · have taken : payload (UInt8.ofNat (0x80 + n)) = 0x80 + n - 0x80 := congrArg (· - 0x80) value
    exact taken.trans (Nat.add_sub_cancel_left 0x80 n)

/-- A second byte that is a continuation is refused only where it would be overlong, a surrogate
or above U+10FFFF. -/
theorem mayFollow_ofNat {m n : Nat} (first : m < 256) (small : n < 64)
    (overlong_three : m = 0xE0 → 0x20 ≤ n) (surrogate : m = 0xED → n < 0x20)
    (overlong_four : m = 0xF0 → 0x10 ≤ n) (above : m = 0xF4 → n < 0x10) :
    mayFollow (UInt8.ofNat m) (UInt8.ofNat (0x80 + n)) = true := by
  have second := toNat_ofNat_of_lt (n := 0x80 + n) (by omega)
  unfold mayFollow secondRange
  rw [toNat_ofNat_of_lt first, second, Bool.and_eq_true, decide_eq_true_eq, decide_eq_true_eq]
  split
  · exact ⟨by have := overlong_three rfl; omega, by omega⟩
  · exact ⟨by omega, by have := surrogate rfl; omega⟩
  · exact ⟨by have := overlong_four rfl; omega, by omega⟩
  · exact ⟨by omega, by have := above rfl; omega⟩
  · exact ⟨by omega, by omega⟩

theorem char_bounds (c : Char) :
    c.toNat < 0xD800 ∨ (0xDFFF < c.toNat ∧ c.toNat < 0x110000) := c.valid

/-- Decoding takes an encoded character off the front, whatever follows it. -/
theorem pieces_encodeChar (c : Char) (rest : List UInt8) :
    pieces (encodeChar c ++ rest) = .char c :: pieces rest := by
  have valid := char_bounds c
  unfold encodeChar
  dsimp only
  split
  · rename_i one
    have value := toNat_ofNat_of_lt (n := c.toNat) (by omega)
    rw [List.singleton_append, pieces_cons, pieceAfter_ascii (by omega), value, Char.ofNat_toNat]
  · split
    · rename_i two
      have value := toNat_ofNat_of_lt (n := 0xC0 + c.toNat / 64) (by omega)
      have last := continuation_ofNat (n := c.toNat % 64) (by omega)
      have sum : (0xC0 + c.toNat / 64 - 0xC0) * 64 + c.toNat % 64 = c.toNat := by omega
      rw [List.cons_append, List.singleton_append, pieces_cons,
        pieceAfter_two (by omega) (by omega) last.1, value, last.2, sum, Char.ofNat_toNat]
    · split
      · rename_i three
        have value := toNat_ofNat_of_lt (n := 0xE0 + c.toNat / 4096) (by omega)
        have middle := continuation_ofNat (n := c.toNat / 64 % 64) (by omega)
        have last := continuation_ofNat (n := c.toNat % 64) (by omega)
        have follows := mayFollow_ofNat (m := 0xE0 + c.toNat / 4096) (n := c.toNat / 64 % 64)
          (by omega) (by omega) (by omega) (by omega) (by omega) (by omega)
        have sum : (0xE0 + c.toNat / 4096 - 0xE0) * 4096 + c.toNat / 64 % 64 * 64 +
            c.toNat % 64 = c.toNat := by omega
        rw [List.cons_append, List.cons_append, List.singleton_append, pieces_cons,
          pieceAfter_three (by omega) (by omega) follows last.1, value, middle.2, last.2, sum,
          Char.ofNat_toNat]
      · have value := toNat_ofNat_of_lt (n := 0xF0 + c.toNat / 262144) (by omega)
        have second := continuation_ofNat (n := c.toNat / 4096 % 64) (by omega)
        have third := continuation_ofNat (n := c.toNat / 64 % 64) (by omega)
        have last := continuation_ofNat (n := c.toNat % 64) (by omega)
        have follows := mayFollow_ofNat (m := 0xF0 + c.toNat / 262144)
          (n := c.toNat / 4096 % 64)
          (by omega) (by omega) (by omega) (by omega) (by omega) (by omega)
        have sum : (0xF0 + c.toNat / 262144 - 0xF0) * 262144 + c.toNat / 4096 % 64 * 4096 +
            c.toNat / 64 % 64 * 64 + c.toNat % 64 = c.toNat := by omega
        rw [List.cons_append, List.cons_append, List.cons_append, List.singleton_append,
          pieces_cons, pieceAfter_four (by omega) (by omega) follows third.1 last.1, value,
          second.2, third.2, last.2, sum, Char.ofNat_toNat]

theorem pieces_flatMap_encodeChar (cs : List Char) :
    pieces (cs.flatMap encodeChar) = cs.map .char := by
  induction cs with
  | nil => simp only [List.flatMap_nil, pieces_nil, List.map_nil]
  | cons c cs ih => rw [List.flatMap_cons, pieces_encodeChar, ih, List.map_cons]

@[simp]
theorem decode?_encode (s : String) : decode? (encode s) = some s := by
  have chars : (s.toList.map Piece.char).mapM Piece.char? = some s.toList := by
    induction s.toList with
    | nil => rfl
    | cons c cs ih => simp [Piece.char?, ih]
  simp [decode?, encode, pieces_flatMap_encodeChar, chars]

@[simp]
theorem decodeLossy_encode (s : String) : decodeLossy (encode s) = s := by
  have shown : Piece.shown ∘ Piece.char = id := rfl
  rw [decodeLossy, encode, pieces_flatMap_encodeChar, List.map_map, shown, List.map_id,
    String.ofList_toList]

theorem encode_injective {s t : String} (same : encode s = encode t) : s = t := by
  have decoded := congrArg decode? same
  rw [decode?_encode, decode?_encode] at decoded
  exact Option.some.inj decoded

theorem toNat_char {n : Nat} (valid : n < 0xD800 ∨ 0xDFFF < n ∧ n < 0x110000) :
    (Char.ofNat n).toNat = n := by
  have valid : n.isValidChar := valid
  unfold Char.ofNat
  rw [dif_pos valid]
  rfl

theorem encodeChar_ascii {n : Nat} (low : n < 0x80) :
    encodeChar (Char.ofNat n) = [UInt8.ofNat n] := by
  unfold encodeChar
  rw [toNat_char (by omega)]
  simp only [low, if_true]

theorem encodeChar_two {m n : Nat} (long : 2 ≤ m) (first : m < 32) (last : n < 64) :
    encodeChar (Char.ofNat (m * 64 + n)) = [UInt8.ofNat (0xC0 + m), UInt8.ofNat (0x80 + n)] := by
  have not_one : ¬ m * 64 + n < 0x80 := by omega
  have two : m * 64 + n < 0x800 := by omega
  have high : (m * 64 + n) / 64 = m := by omega
  have low : (m * 64 + n) % 64 = n := by omega
  unfold encodeChar
  rw [toNat_char (by omega)]
  simp only [not_one, two, high, low, if_true, if_false]

theorem encodeChar_three {m k n : Nat} (first : m < 16) (second : k < 64) (last : n < 64)
    (long : m = 0 → 32 ≤ k) (no_surrogate : m = 13 → k < 32) :
    encodeChar (Char.ofNat (m * 4096 + k * 64 + n)) =
      [UInt8.ofNat (0xE0 + m), UInt8.ofNat (0x80 + k), UInt8.ofNat (0x80 + n)] := by
  have not_two : ¬ m * 4096 + k * 64 + n < 0x800 := by omega
  have not_one : ¬ m * 4096 + k * 64 + n < 0x80 := by omega
  have three : m * 4096 + k * 64 + n < 0x10000 := by omega
  have high : (m * 4096 + k * 64 + n) / 4096 = m := by omega
  have middle : (m * 4096 + k * 64 + n) / 64 % 64 = k := by omega
  have low : (m * 4096 + k * 64 + n) % 64 = n := by omega
  unfold encodeChar
  rw [toNat_char (by omega)]
  simp only [not_one, not_two, three, high, middle, low, if_true, if_false]

theorem encodeChar_four {m k l n : Nat} (first : m < 5) (second : k < 64) (third : l < 64)
    (last : n < 64) (long : m = 0 → 16 ≤ k) (bounded : m = 4 → k < 16) :
    encodeChar (Char.ofNat (m * 262144 + k * 4096 + l * 64 + n)) =
      [UInt8.ofNat (0xF0 + m), UInt8.ofNat (0x80 + k), UInt8.ofNat (0x80 + l),
        UInt8.ofNat (0x80 + n)] := by
  have not_three : ¬ m * 262144 + k * 4096 + l * 64 + n < 0x10000 := by omega
  have not_two : ¬ m * 262144 + k * 4096 + l * 64 + n < 0x800 := by omega
  have not_one : ¬ m * 262144 + k * 4096 + l * 64 + n < 0x80 := by omega
  have high : (m * 262144 + k * 4096 + l * 64 + n) / 262144 = m := by omega
  have middle : (m * 262144 + k * 4096 + l * 64 + n) / 4096 % 64 = k := by omega
  have next : (m * 262144 + k * 4096 + l * 64 + n) / 64 % 64 = l := by omega
  have low : (m * 262144 + k * 4096 + l * 64 + n) % 64 = n := by omega
  unfold encodeChar
  rw [toNat_char (by omega)]
  simp only [not_one, not_two, not_three, high, middle, next, low, if_false]

theorem continuation_eq {b : UInt8} (continues : isContinuation b = true) :
    payload b < 64 ∧ UInt8.ofNat (0x80 + payload b) = b := by
  simp only [isContinuation, Bool.and_eq_true, decide_eq_true_eq] at continues
  have sum : 0x80 + payload b = b.toNat := by
    unfold payload
    omega
  exact ⟨by unfold payload; omega, by rw [sum, UInt8.ofNat_toNat]⟩

theorem mayFollow_eq {a b : UInt8} (follows : mayFollow a b = true) :
    payload b < 64 ∧ UInt8.ofNat (0x80 + payload b) = b ∧
      (a.toNat = 0xE0 → 0x20 ≤ payload b) ∧ (a.toNat = 0xED → payload b < 0x20) ∧
      (a.toNat = 0xF0 → 0x10 ≤ payload b) ∧ (a.toNat = 0xF4 → payload b < 0x10) := by
  unfold mayFollow secondRange at follows
  rw [Bool.and_eq_true, decide_eq_true_eq, decide_eq_true_eq] at follows
  have bounds : (0x80 ≤ b.toNat ∧ b.toNat < 0xC0) ∧
      (a.toNat = 0xE0 → 0xA0 ≤ b.toNat) ∧ (a.toNat = 0xED → b.toNat < 0xA0) ∧
      (a.toNat = 0xF0 → 0x90 ≤ b.toNat) ∧ (a.toNat = 0xF4 → b.toNat < 0x90) := by
    split at follows
    case h_5 not_e0 not_ed not_f0 not_f4 =>
      exact ⟨follows, fun same => (not_e0 same).elim, fun same => (not_ed same).elim,
        fun same => (not_f0 same).elim, fun same => (not_f4 same).elim⟩
    all_goals
      dsimp only at follows
      omega
  have continues : isContinuation b = true := by
    simp only [isContinuation, Bool.and_eq_true, decide_eq_true_eq]
    exact bounds.1
  obtain ⟨small, same⟩ := continuation_eq continues
  unfold payload
  refine ⟨small, same, ?_⟩
  omega

theorem char_read {c d : Char} {r s : List UInt8} (same : (Piece.char c, r) = (.char d, s)) :
    c = d ∧ r = s := by
  obtain ⟨pieces, rests⟩ := Prod.mk.inj same
  exact ⟨Piece.char.inj pieces, rests⟩

theorem encodeChar_of_pieceAfter {a : UInt8} {r rest : List UInt8} {c : Char}
    (read : pieceAfter a r = (.char c, rest)) : a :: r = encodeChar c ++ rest := by
  unfold pieceAfter at read
  dsimp only at read
  split at read
  · rename_i one
    obtain ⟨rfl, rfl⟩ := char_read read
    rw [encodeChar_ascii one, UInt8.ofNat_toNat, List.singleton_append]
  · split at read
    · cases read
    · rename_i not_one lead
      split at read
      · cases read
      · rename_i b r₁
        split at read
        · rename_i two
          split at read
          · rename_i continues
            obtain ⟨rfl, rfl⟩ := char_read read
            obtain ⟨small, same⟩ := continuation_eq continues
            have first : 0xC0 + (a.toNat - 0xC0) = a.toNat := by omega
            rw [encodeChar_two (by omega) (by omega) small, same, first, UInt8.ofNat_toNat]
            rfl
          · cases read
        · rename_i not_two
          split at read
          · cases read
          · rename_i follows
            have follows : mayFollow a b = true := by simpa using follows
            obtain ⟨small, same, overlong, surrogate, overlong_four, above⟩ := mayFollow_eq follows
            split at read
            · cases read
            · rename_i c₁ r₂
              split at read
              · cases read
              · rename_i third
                have third : isContinuation c₁ = true := by simpa using third
                obtain ⟨third_small, third_same⟩ := continuation_eq third
                split at read
                · rename_i three
                  obtain ⟨rfl, rfl⟩ := char_read read
                  have first : 0xE0 + (a.toNat - 0xE0) = a.toNat := by omega
                  rw [encodeChar_three (by omega) small third_small (by omega) (by omega), same,
                    third_same, first, UInt8.ofNat_toNat]
                  rfl
                · rename_i not_three
                  split at read
                  · cases read
                  · rename_i d r₃
                    split at read
                    · rename_i fourth
                      obtain ⟨rfl, rfl⟩ := char_read read
                      obtain ⟨fourth_small, fourth_same⟩ := continuation_eq fourth
                      have first : 0xF0 + (a.toNat - 0xF0) = a.toNat := by omega
                      rw [encodeChar_four (by omega) small third_small fourth_small (by omega)
                        (by omega), same, third_same, fourth_same, first, UInt8.ofNat_toNat]
                      rfl
                    · cases read

theorem flatMap_of_pieces {bytes : List UInt8} {cs : List Char}
    (read : pieces bytes = cs.map .char) : bytes = cs.flatMap encodeChar := by
  induction cs generalizing bytes with
  | nil =>
    cases bytes with
    | nil => rfl
    | cons a r =>
      rw [pieces_cons] at read
      cases read
  | cons c cs ih =>
    cases bytes with
    | nil =>
      rw [pieces_nil] at read
      cases read
    | cons a r =>
      rw [pieces_cons, List.map_cons] at read
      obtain ⟨first, later⟩ := List.cons.inj read
      have taken : pieceAfter a r = (.char c, (pieceAfter a r).2) := Prod.ext first rfl
      rw [List.flatMap_cons, ← ih later]
      exact encodeChar_of_pieceAfter taken

theorem mapM_char?_eq_some {ps : List Piece} {cs : List Char}
    (all : ps.mapM Piece.char? = some cs) : ps = cs.map .char := by
  induction ps generalizing cs with
  | nil =>
    cases all
    rfl
  | cons p ps ih =>
    simp only [List.mapM_cons, Option.bind_eq_bind, Option.bind_eq_some_iff, Option.pure_def,
      Option.some.injEq] at all
    obtain ⟨c, first, ds, others, rfl⟩ := all
    cases p with
    | broken => cases first
    | char d =>
      cases first
      rw [List.map_cons, ← ih others]

theorem encode_of_decode? {bytes : List UInt8} {s : String} (read : decode? bytes = some s) :
    encode s = bytes := by
  obtain ⟨cs, all, rfl⟩ := Option.map_eq_some_iff.mp read
  rw [encode, String.toList_ofList]
  exact (flatMap_of_pieces (mapM_char?_eq_some all)).symm

end HotReload.Utf8
