import HotReload.Json.Skip

namespace HotReload.Json

/-- The fault of a value that begins with `c` where another type is due. -/
def wrongType (c : Char) (r : List Char) : Fault :=
  let scalar (read : Except Fault (Parsed Unit (r.length + 1))) : Fault :=
    match read with
    | .error e => e
    | .ok _ => .mismatch
  match c with
  | '[' | '\x7b' => .mismatch
  | 'n' => scalar (readWord () "ull".toList r (length_lt_succ _))
  | 't' => scalar (readWord () "rue".toList r (length_lt_succ _))
  | 'f' => scalar (readWord () "alse".toList r (length_lt_succ _))
  | '"' => scalar ((readQuoted [] r (length_lt_succ _)).map (Parsed.map fun _ => ()))
  | c =>
    if c = '-' ∨ Numeral.isDigit c then
      match readNumber .unfinished (c :: r) (Nat.le_refl _) with
      | .error e => e
      | .ok x => if x.value.isTooLarge then .malformed else .mismatch
    else .malformed

def readString : Reader String := fun s =>
  match hs : skipSpace s with
  | [] => .error .unfinished
  | c :: r =>
    if c = '"' then readQuoted [] r (length_lt_of_skipSpace hs) else .error (wrongType c r)

def readBool : Reader Bool := fun s =>
  match hs : skipSpace s with
  | [] => .error .unfinished
  | c :: r =>
    if c = 't' then readWord true "rue".toList r (length_lt_of_skipSpace hs)
    else if c = 'f' then readWord false "alse".toList r (length_lt_of_skipSpace hs)
    else .error (wrongType c r)

def readOptional {α : Type} (read : Reader α) : Reader (Option α) := fun s =>
  match hs : skipSpace s with
  | [] => (read s).map (Parsed.map some)
  | c :: r =>
    if c = 'n' then readWord none "ull".toList r (length_lt_of_skipSpace hs)
    else (read s).map (Parsed.map some)

/-- Reads the items of an array up to its end. `first` tells that none was read yet; `done`
holds those that were, the last one first. -/
def readItems {α : Type} (item : Reader α) {n : Nat} (first : Bool) (done : List α)
    (s : List Char) (h : s.length ≤ n) : Except Fault (Parsed (List α) n) :=
  match hs : skipSpace s with
  | [] => .error .unfinished
  | c :: r =>
    have lt := length_lt_of_skipSpace hs
    if c = ']' then .ok ⟨done.reverse, r, length_lt_of_le lt h⟩
    else if first then
      match item s with
      | .error e => .error e
      | .ok p =>
        have := p.shorter
        readItems item false (p.value :: done) p.rest (by omega)
    else if c = ',' then
      if (skipSpace r).head? = some ']' then .error .malformed
      else
        match item r with
        | .error e => .error e
        | .ok p =>
          have := p.shorter
          readItems item false (p.value :: done) p.rest (by omega)
    else .error .malformed
termination_by s.length
decreasing_by
  · exact p.shorter
  · omega

def readList {α : Type} (item : Reader α) : Reader (List α) := fun s =>
  match hs : skipSpace s with
  | [] => .error .unfinished
  | c :: r =>
    if c = '[' then readItems item true [] r (length_le_of_skipSpace hs)
    else .error (wrongType c r)

/-- Reads the members of an object up to its end. `member` says how the value of a member is
read and what it adds to the state; it may refuse a name before the value is seen. -/
def readMembers {σ : Type} (member : σ → String → Except Fault (Reader σ)) {n : Nat}
    (first : Bool) (state : σ) (s : List Char) (h : s.length ≤ n) :
    Except Fault (Parsed σ n) :=
  match hs : skipSpace s with
  | [] => .error .unfinished
  | c :: r =>
    have lt := length_lt_of_skipSpace hs
    if c = '\x7d' then .ok ⟨state, r, length_lt_of_le lt h⟩
    else if !first && c != ',' then .error .malformed
    else
      match hk : skipSpace (if first then c :: r else r) with
      | [] => .error .unfinished
      | d :: k =>
        have lt₂ : k.length < s.length := by
          have bound : (if first then c :: r else r).length ≤ r.length + 1 := by
            split <;> simp
          have := length_lt_of_skipSpace hk
          omega
        if d ≠ '"' then .error .malformed
        else
          match readQuoted [] k lt₂ with
          | .error e => .error e
          | .ok key =>
            have := key.shorter
            match member state key.value with
            | .error e => .error e
            | .ok read =>
              match hv : skipSpace key.rest with
              | [] => .error .unfinished
              | e :: v =>
                have lt₃ := length_lt_of_skipSpace hv
                if e ≠ ':' then .error .malformed
                else
                  match read v with
                  | .error e => .error e
                  | .ok p =>
                    have := p.shorter
                    readMembers member false p.value p.rest (by omega)
termination_by s.length

def readPairs {α : Type} (value : Reader α) : Reader (List (String × α)) := fun s =>
  match hs : skipSpace s with
  | [] => .error .unfinished
  | c :: r =>
    if c = '\x7b' then
      (readMembers (fun pairs k => .ok fun s => (value s).map (Parsed.map fun v => (k, v) :: pairs))
        true [] r (length_le_of_skipSpace hs)).map (Parsed.map List.reverse)
    else .error (wrongType c r)

def readWhole {α : Type} (read : Reader α) (s : List Char) : Except Fault α :=
  match read s with
  | .error e => .error e
  | .ok p => if (skipSpace p.rest).isEmpty then .ok p.value else .error .malformed

end HotReload.Json
