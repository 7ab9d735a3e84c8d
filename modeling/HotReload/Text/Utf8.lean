/-! UTF-8 over lists of bytes.
Paths and file contents are arbitrary bytes, so decoding can fail. It has two forms:
`decode?` refuses every text that is not well formed, `decodeLossy` writes one U+FFFD
for each longest piece that could still have begun a character. -/
namespace HotReload.Utf8

/-- The bytes of one character: one below U+0080, two below U+0800, three below
U+10000, else four. -/
def encodeChar (c : Char) : List UInt8 :=
  let n := c.toNat
  if n < 0x80 then
    [UInt8.ofNat n]
  else if n < 0x800 then
    [UInt8.ofNat (0xC0 + n / 64), UInt8.ofNat (0x80 + n % 64)]
  else if n < 0x10000 then
    [UInt8.ofNat (0xE0 + n / 4096), UInt8.ofNat (0x80 + n / 64 % 64),
      UInt8.ofNat (0x80 + n % 64)]
  else
    [UInt8.ofNat (0xF0 + n / 262144), UInt8.ofNat (0x80 + n / 4096 % 64),
      UInt8.ofNat (0x80 + n / 64 % 64), UInt8.ofNat (0x80 + n % 64)]

def encode (s : String) : List UInt8 := s.toList.flatMap encodeChar

/-- One step of decoding: a character, or a piece that belongs to no character. -/
inductive Piece where
  | char (c : Char)
  | broken
deriving Repr, DecidableEq

def isContinuation (b : UInt8) : Bool := 0x80 ≤ b.toNat && b.toNat < 0xC0

/-- The bytes that may stand second after the given first byte of a character of three
or four bytes. The narrowed ranges exclude overlong forms, surrogates and values above
U+10FFFF. -/
def secondRange (first : UInt8) : Nat × Nat :=
  match first.toNat with
  | 0xE0 => (0xA0, 0xC0)
  | 0xED => (0x80, 0xA0)
  | 0xF0 => (0x90, 0xC0)
  | 0xF4 => (0x80, 0x90)
  | _ => (0x80, 0xC0)

def mayFollow (first second : UInt8) : Bool :=
  (secondRange first).1 ≤ second.toNat && second.toNat < (secondRange first).2

def payload (b : UInt8) : Nat := b.toNat - 0x80

/-- The first piece after the byte `a`, and what remains. A broken piece ends before the
first byte that cannot continue it. -/
def pieceAfter (a : UInt8) (r : List UInt8) : Piece × List UInt8 :=
  let n := a.toNat
  if n < 0x80 then
    (.char (Char.ofNat n), r)
  else if n < 0xC2 ∨ 0xF5 ≤ n then
    (.broken, r)
  else
    match r with
    | [] => (.broken, [])
    | b :: r₁ =>
      if n < 0xE0 then
        if isContinuation b then (.char (Char.ofNat ((n - 0xC0) * 64 + payload b)), r₁)
        else (.broken, r)
      else if !mayFollow a b then
        (.broken, r)
      else
        match r₁ with
        | [] => (.broken, [])
        | c :: r₂ =>
          if !isContinuation c then
            (.broken, r₁)
          else if n < 0xF0 then
            (.char (Char.ofNat ((n - 0xE0) * 4096 + payload b * 64 + payload c)), r₂)
          else
            match r₂ with
            | [] => (.broken, [])
            | d :: r₃ =>
              if isContinuation d then
                (.char (Char.ofNat ((n - 0xF0) * 262144 + payload b * 4096 + payload c * 64 +
                  payload d)), r₃)
              else
                (.broken, r₂)

theorem length_pieceAfter_le (a : UInt8) (r : List UInt8) :
    (pieceAfter a r).2.length ≤ r.length := by
  unfold pieceAfter
  dsimp only
  repeat' split
  all_goals simp only [List.length_cons, List.length_nil]
  all_goals omega

theorem length_pieceAfter_lt (a : UInt8) (r : List UInt8) :
    (pieceAfter a r).2.length < (a :: r).length := Nat.lt_succ_of_le (length_pieceAfter_le a r)

def piecesBehind (found : List Piece) : List UInt8 → List Piece
  | [] => found.reverse
  | a :: r => piecesBehind ((pieceAfter a r).1 :: found) (pieceAfter a r).2
termination_by bytes => bytes.length
decreasing_by exact length_pieceAfter_lt a r

def pieces (bytes : List UInt8) : List Piece := piecesBehind [] bytes

theorem piecesBehind_append (found earlier : List Piece) (bytes : List UInt8) :
    piecesBehind (found ++ earlier) bytes = earlier.reverse ++ piecesBehind found bytes := by
  fun_induction piecesBehind found bytes with
  | case1 found => simp only [piecesBehind, List.reverse_append]
  | case2 found a r ih => rw [piecesBehind, ← ih, List.cons_append]

@[simp]
theorem pieces_nil : pieces [] = [] := by simp only [pieces, piecesBehind, List.reverse_nil]

@[simp]
theorem pieces_cons (a : UInt8) (r : List UInt8) :
    pieces (a :: r) = (pieceAfter a r).1 :: pieces (pieceAfter a r).2 := by
  rw [pieces, piecesBehind]
  exact piecesBehind_append [] [(pieceAfter a r).1] _

def Piece.char? : Piece → Option Char
  | .char c => some c
  | .broken => none

def Piece.shown : Piece → Char
  | .char c => c
  | .broken => Char.ofNat 0xFFFD

def decode? (bytes : List UInt8) : Option String :=
  ((pieces bytes).mapM Piece.char?).map String.ofList

def decodeLossy (bytes : List UInt8) : String :=
  String.ofList ((pieces bytes).map Piece.shown)

end HotReload.Utf8
