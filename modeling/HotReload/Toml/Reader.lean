import HotReload.Toml.Number

namespace HotReload.Toml

theorem length_lt_of_item {s r t : List Char} {c d : Char} (hs : skipGaps s = c :: r)
    (v : Parsed Node (c :: r).length) (ht : skipGaps v.rest = d :: t) : t.length < s.length := by
  have before := length_skipGaps_le s
  have behind := length_skipGaps_le v.rest
  rw [hs] at before
  rw [ht] at behind
  exact Nat.lt_of_lt_of_le (Nat.lt_trans behind v.shorter) before

def readItems (item : (s : List Char) → Read Node s.length) {n : Nat} (done : List Node)
    (s : List Char) (h : s.length ≤ n) : Read (List Node) n :=
  match hs : skipGaps s with
  | [] => none
  | c :: r =>
    have lt := length_lt_of_skipGaps hs
    if c = ']' then some ⟨done.reverse, r, length_lt_of_le lt h⟩
    else
      match item (c :: r) with
      | none => none
      | some v =>
        match ht : skipGaps v.rest with
        | [] => none
        | d :: t =>
          have less := length_lt_of_item hs v ht
          if d = ',' then readItems item (v.value :: done) t (length_le_of_lt less h)
          else if d = ']' then some ⟨(v.value :: done).reverse, t, length_lt_of_le less h⟩
          else none
termination_by s.length
decreasing_by exact less

def readPair (value : (s : List Char) → Read Node s.length) {n : Nat} (s : List Char)
    (h : s.length ≤ n) : Read (List String × Node) n :=
  match readKeyPath s h with
  | none => none
  | some k =>
    match hk : k.rest with
    | '=' :: r =>
      match value (skipBlank r) with
      | none => none
      | some v =>
        some ⟨(k.value, v.value), skipBlank v.rest, by
          have := k.shorter
          rw [hk] at this
          simp only [List.length_cons] at this
          have := v.shorter
          have := length_skipBlank_le r
          have := length_skipBlank_le v.rest
          omega⟩
    | _ => none

/-- Reads the pairs of a table in braces up to its closing brace. There is at least one, and
no comma behind the last. -/
def readPairs (value : (s : List Char) → Read Node s.length) {n : Nat}
    (done : List (List String × Node)) (s : List Char) (h : s.length ≤ n) :
    Read (List (List String × Node)) n :=
  match readPair value s (Nat.le_refl _) with
  | none => none
  | some p =>
    have shorter := p.shorter
    match hp : p.rest with
    | c :: r =>
      have less : r.length < s.length := by
        rw [hp] at shorter
        simp only [List.length_cons] at shorter
        omega
      if c = ',' then readPairs value (p.value :: done) r (by omega)
      else if c = '\x7d' then some ⟨(p.value :: done).reverse, r, length_lt_of_le less h⟩
      else none
    | [] => none
termination_by s.length

def readBraces (value : (s : List Char) → Read Node s.length) {n : Nat} (s : List Char)
    (h : s.length ≤ n) : Read Node n :=
  match hs : skipBlank s with
  | '\x7d' :: r =>
    some ⟨.table .closed [], r, by
      have := length_skipBlank_le s
      rw [hs] at this
      simp only [List.length_cons] at this
      omega⟩
  | _ => do
    let pairs ← readPairs value [] s h
    let entries ← Entries.ofPairs pairs.value
    some (pairs.map fun _ => .table .closed entries)

def readScalar {n : Nat} (c : Char) (r : List Char) (h : r.length < n) : Read Node n :=
  if c = '"' ∨ c = '\x27' then (readText c r h).map (Parsed.map Node.string)
  else
    match c, r with
    | 't', 'r' :: 'u' :: 'e' :: r =>
      some ⟨.boolean true, r, by simp only [List.length_cons] at h; omega⟩
    | 'f', 'a' :: 'l' :: 's' :: 'e' :: r =>
      some ⟨.boolean false, r, by simp only [List.length_cons] at h; omega⟩
    | c, r =>
      match readDatetime (c :: r) h with
      | some result => result
      | none => readNumber (c :: r) h

/-- Reads a value in which `depth` more levels of nesting are allowed. -/
def readValue : (depth : Nat) → (s : List Char) → Read Node s.length
  | _, [] => none
  | depth, c :: r =>
    if c = '[' then
      match depth with
      | 0 => none
      | k + 1 => (readItems (readValue k) [] r (Nat.le_succ _)).map (Parsed.map Node.array)
    else if c = '\x7b' then
      match depth with
      | 0 => none
      | k + 1 => readBraces (readValue k) r (Nat.le_succ _)
    else readScalar c r (length_lt_succ _)

def readTopValue (s : List Char) : Read Node s.length := readValue (nestingLimit - 1) s

def readHeader (closing : List Char) (begin : List String → Option Document) {n : Nat}
    (s : List Char) (h : s.length ≤ n) : Read Document n := do
  let key ← readKeyPath s h
  if closing.isPrefixOf key.rest then
    match he : endLine (key.rest.drop closing.length) with
    | none => none
    | some r =>
      let d ← begin key.value
      some ⟨d, r, by
        have := length_le_of_endLine he
        have := key.shorter
        simp only [List.length_drop] at *
        omega⟩
  else none

def readLine (d : Document) (c : Char) (r : List Char) : Read Document (c :: r).length :=
  if c = '#' ∨ c = '\n' ∨ c = '\r' then
    match he : endLine (c :: r) with
    | none => none
    | some rest =>
      if shorter : rest.length < (c :: r).length then some ⟨d, rest, shorter⟩ else none
  else if c = '[' then
    match r with
    | '[' :: r => readHeader [']', ']'] d.beginElement r (by simp only [List.length_cons]; omega)
    | r => readHeader [']'] d.beginTable r (by simp only [List.length_cons]; omega)
  else
    match readPair readTopValue (c :: r) (Nat.le_refl _) with
    | none => none
    | some p =>
      match he : endLine p.rest with
      | none => none
      | some rest => do
        let d ← d.addValue p.value.1 p.value.2
        some ⟨d, rest, Nat.lt_of_le_of_lt (length_le_of_endLine he) p.shorter⟩

theorem length_le_of_skipBlank {s r : List Char} {c : Char} (h : skipBlank s = c :: r) :
    (c :: r).length ≤ s.length := h ▸ length_skipBlank_le s

def readDocument (d : Document) (s : List Char) : Option Document :=
  match hs : skipBlank s with
  | [] => some d
  | c :: r =>
    match readLine d c r with
    | none => none
    | some p =>
      have := Nat.lt_of_lt_of_le p.shorter (length_le_of_skipBlank hs)
      readDocument p.value p.rest
termination_by s.length

/-- The tree of a document; a byte order mark in front of it is passed over. -/
def parse? (text : String) : Option Entries :=
  let chars := match text.toList with
    | c :: r => if c.toNat = 0xFEFF then r else c :: r
    | [] => []
  (readDocument .empty chars).bind Document.complete

end HotReload.Toml
