namespace HotReload

abbrev Digits := List Char

/-- The digits of a number, without its point, and the power of ten they are multiplied
with. -/
structure Numeral where
  digits : Digits
  exponent : Int
deriving Repr

namespace Numeral

def isDigit (c : Char) : Bool := '0' ≤ c && c ≤ '9'

def ofDigits (digits : List Char) : Nat :=
  digits.foldl (fun v c => v * 10 + (c.toNat - 48)) 0

/-- The number that the digits of an exponent spell, capped at a billion: any larger power
of ten decides in the same way whether a number is too large. -/
def exponentOf (digits : List Char) : Nat :=
  digits.foldl (fun v c => min 1000000000 (v * 10 + (c.toNat - 48))) 0

/-- The first magnitude that rounds to infinity: half a unit above the largest double. -/
def overflowBound : Nat := 1 <<< 1024 - 1 <<< 970

/-- Does the number lie beyond the doubles? Powers of ten are computed only where the
count of digits does not decide. -/
def isTooLarge (x : Numeral) : Bool :=
  let significant := x.digits.dropWhile (· == '0')
  let magnitude : Int := significant.length + x.exponent
  if significant.isEmpty ∨ magnitude < 300 then false
  else if 310 < magnitude then true
  else if 0 ≤ x.exponent then overflowBound ≤ ofDigits significant * Nat.pow 10 x.exponent.toNat
  else overflowBound * Nat.pow 10 (-x.exponent).toNat ≤ ofDigits significant

end Numeral
end HotReload
