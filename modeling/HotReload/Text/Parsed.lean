namespace HotReload

section Lengths

variable {α : Type} {l m : List α} {n : Nat}

theorem length_lt_succ (l : List α) : l.length < l.length.succ := Nat.lt_succ_self _

theorem length_lt_of_succ_lt (h : l.length + 1 < n) : l.length < n := Nat.lt_of_succ_lt h

theorem length_le_of_succ_lt (h : l.length + 1 < n) : l.length ≤ n :=
  Nat.le_of_lt (Nat.lt_of_succ_lt h)

theorem length_le_of_succ_le (h : l.length + 1 ≤ n) : l.length ≤ n := Nat.le_of_lt h

theorem length_lt_of_le (h : l.length < m.length) (le : m.length ≤ n) : l.length < n :=
  Nat.lt_of_lt_of_le h le

theorem length_le_of_lt (h : l.length < m.length) (le : m.length ≤ n) : l.length ≤ n :=
  Nat.le_of_lt (Nat.lt_of_lt_of_le h le)

end Lengths

/-- A value and the text behind it, of fewer than `n` characters. -/
structure Parsed (α : Type) (n : Nat) where
  value : α
  rest : List Char
  shorter : rest.length < n

namespace Parsed

variable {α β : Type} {n m : Nat}

def map (f : α → β) (p : Parsed α n) : Parsed β n := ⟨f p.value, p.rest, p.shorter⟩

theorem rest_le (p : Parsed α n) : p.rest.length ≤ n := Nat.le_of_lt p.shorter

theorem rest_le_of_le {l : List Char} (p : Parsed α l.length) (le : l.length ≤ n) :
    p.rest.length ≤ n := Nat.le_of_lt (Nat.lt_of_lt_of_le p.shorter le)

theorem rest_le_of_lt {k l : List Char} (p : Parsed α k.length) (lt : k.length < l.length)
    (le : l.length ≤ n) : p.rest.length ≤ n := p.rest_le_of_le (length_le_of_lt lt le)

def widen (p : Parsed α n) (le : n ≤ m) : Parsed α m :=
  ⟨p.value, p.rest, Nat.lt_of_lt_of_le p.shorter le⟩

end Parsed
end HotReload
