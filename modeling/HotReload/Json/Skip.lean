import HotReload.Json.Number

/-! Passing over a value of any form.
The brackets that are open stand in a list, so values may be nested without limit. Inside
such a value a `\u` needs four hexadecimal digits, but surrogates need not pair up. -/
namespace HotReload.Json

inductive Bracket where
  | square
  | curly
deriving Repr, DecidableEq

def Bracket.closing : Bracket → Char
  | .square => ']'
  | .curly => '\x7d'

def skipQuoted {n : Nat} (s : List Char) (h : s.length < n) : Except Fault (Parsed Unit n) :=
  match s with
  | [] => .error .unfinished
  | '"' :: r => .ok ⟨(), r, length_lt_of_succ_lt h⟩
  | '\\' :: r =>
    match r with
    | [] => .error .unfinished
    | c :: r =>
      if c = 'u' then
        match readHex4 r (length_lt_succ _) with
        | .error e => .error e
        | .ok u => skipQuoted u.rest
            (by have := u.shorter; simp only [List.length_cons] at h; omega)
      else if (simpleEscape? c).isSome then
        skipQuoted r (by simp only [List.length_cons] at h; omega)
      else .error .malformed
  | c :: r => if c.toNat < 0x20 then .error .malformed else skipQuoted r (length_lt_of_succ_lt h)
termination_by s.length
decreasing_by
  · have := u.shorter
    simp only [List.length_cons]
    omega
  · simp only [List.length_cons]
    omega
  · exact length_lt_succ _

def skipScalar {n : Nat} (c : Char) (r : List Char) (h : r.length < n) :
    Except Fault (Parsed Unit n) :=
  match c with
  | 'n' => readWord () "ull".toList r h
  | 't' => readWord () "rue".toList r h
  | 'f' => readWord () "alse".toList r h
  | '"' => skipQuoted r h
  | c =>
    if c = '-' ∨ Numeral.isDigit c then
      (readNumber .malformed (c :: r) h).map (Parsed.map fun _ => ())
    else .error .malformed

inductive Awaiting where
  | value
  | member
  /-- Either of the two, or the end of the bracket just opened. -/
  | first
  /-- A comma, or the end of the innermost bracket. -/
  | further
deriving Repr, DecidableEq

def Bracket.content : Bracket → Awaiting
  | .square => .value
  | .curly => .member

/-- Orders the states by how many steps they may take without consuming anything. -/
def Awaiting.rank : Awaiting → Nat
  | .first => 1
  | _ => 0

/-- Passes over the rest of a value with the given brackets open, innermost first. -/
def skipRest {n : Nat} (state : Awaiting) (opened : List Bracket) (s : List Char)
    (h : s.length ≤ n) : Except Fault (Parsed Unit n) :=
  match hs : skipSpace s with
  | [] => .error .unfinished
  | c :: r =>
    have lt := length_lt_of_skipSpace hs
    match state, opened with
    | .value, opened =>
      if c = '[' then skipRest .first (.square :: opened) r (by omega)
      else if c = '\x7b' then skipRest .first (.curly :: opened) r (by omega)
      else
        match skipScalar c r lt with
        | .error e => .error e
        | .ok p =>
          have := p.shorter
          if opened.isEmpty then .ok (p.widen h) else skipRest .further opened p.rest (by omega)
    | .member, opened =>
      if c = '"' then
        match skipQuoted r lt with
        | .error e => .error e
        | .ok key =>
          match hk : skipSpace key.rest with
          | [] => .error .unfinished
          | d :: r₂ =>
            have lt₂ := length_lt_of_skipSpace hk
            have := key.shorter
            if d = ':' then skipRest .value opened r₂ (by omega) else .error .malformed
      else .error .malformed
    | _, [] => .error .malformed
    | state, b :: outer =>
      if c = b.closing then
        if outer.isEmpty then .ok ⟨(), r, length_lt_of_le lt h⟩
        else skipRest .further outer r (by omega)
      else if hf : state = .first then
        skipRest b.content (b :: outer) s h
      else if c = ',' then skipRest b.content (b :: outer) r (by omega)
      else .error .malformed
termination_by (s.length, state.rank)
decreasing_by
  · exact .left _ _ lt
  · exact .left _ _ lt
  · exact .left _ _ p.shorter
  · exact .left _ _ (by omega)
  · exact .left _ _ lt
  · exact .right _ (by rw [hf]; cases b <;> decide)
  · exact .left _ _ lt

def skipValue : Reader Unit := fun s => skipRest .value [] s (Nat.le_refl _)

end HotReload.Json
