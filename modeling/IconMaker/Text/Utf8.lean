import IconMaker.Bytes

/-
  IconMaker.Text.Utf8 — byte strings as text that may be damaged.

  `pieces` cuts a byte string into well-formed characters and broken runs; a broken run is
  the longest beginning of a character that the next byte does not continue, or one byte
  that begins none. `text?` is the text of a byte string without broken runs, `lossy`
  writes U+FFFD for each of them. `utf8` is the encoding.
-/

namespace IconMaker.Text

inductive Piece where
  | char (c : Char)
  | broken (bytes : Bytes)
  deriving DecidableEq, Repr

def isContinuation (b : UInt8) : Bool := 0x80 ≤ b && b ≤ 0xbf

/-- The second bytes that may follow a lead byte of three or four. -/
def secondFits (lead b : UInt8) : Bool :=
  if lead == 0xe0 then 0xa0 ≤ b && b ≤ 0xbf
  else if lead == 0xed then 0x80 ≤ b && b ≤ 0x9f
  else if lead == 0xf0 then 0x90 ≤ b && b ≤ 0xbf
  else if lead == 0xf4 then 0x80 ≤ b && b ≤ 0x8f
  else isContinuation b

def low6 (b : UInt8) : Nat := b.toNat % 64

/-- The first piece of `b :: r` and what follows it. -/
def firstPiece (b : UInt8) (r : Bytes) : Piece × Bytes :=
  if b < 0x80 then (.char (Char.ofNat b.toNat), r)
  else if 0xc2 ≤ b && b ≤ 0xdf then
    match r with
    | c :: r' =>
      if isContinuation c then (.char (Char.ofNat (b.toNat % 32 * 64 + low6 c)), r')
      else (.broken [b], r)
    | [] => (.broken [b], [])
  else if 0xe0 ≤ b && b ≤ 0xef then
    match r with
    | c :: r' =>
      if secondFits b c then
        match r' with
        | d :: r'' =>
          if isContinuation d then
            (.char (Char.ofNat ((b.toNat % 16 * 64 + low6 c) * 64 + low6 d)), r'')
          else (.broken [b, c], r')
        | [] => (.broken [b, c], [])
      else (.broken [b], r)
    | [] => (.broken [b], [])
  else if 0xf0 ≤ b && b ≤ 0xf4 then
    match r with
    | c :: r' =>
      if secondFits b c then
        match r' with
        | d :: r'' =>
          if isContinuation d then
            match r'' with
            | e :: r''' =>
              if isContinuation e then
                (.char (Char.ofNat (((b.toNat % 8 * 64 + low6 c) * 64 + low6 d) * 64 + low6 e)), r''')
              else (.broken [b, c, d], r'')
            | [] => (.broken [b, c, d], [])
          else (.broken [b, c], r')
        | [] => (.broken [b, c], [])
      else (.broken [b], r)
    | [] => (.broken [b], [])
  else (.broken [b], r)

theorem length_firstPiece (b : UInt8) (r : Bytes) : (firstPiece b r).2.length ≤ r.length := by
  unfold firstPiece
  repeat' split
  all_goals simp_all only [List.length_cons, List.length_nil, Nat.le_refl]
  all_goals omega

def pieces : Bytes → List Piece
  | [] => []
  | b :: r => (firstPiece b r).1 :: pieces (firstPiece b r).2
termination_by bs => bs.length
decreasing_by
  have := length_firstPiece b r
  simp only [List.length_cons]
  omega

def Piece.char? : Piece → Option Char
  | .char c => some c
  | .broken _ => none

/-- The text of a byte string that is well-formed throughout. -/
def text? (bs : Bytes) : Option (List Char) := (pieces bs).mapM Piece.char?

def replacement : Char := Char.ofNat 0xfffd

def Piece.orReplacement : Piece → Char
  | .char c => c
  | .broken _ => replacement

def lossy (bs : Bytes) : List Char := (pieces bs).map Piece.orReplacement

def utf8 (s : List Char) : Bytes := s.flatMap String.utf8EncodeChar

/-- How many bytes the encoding of a text has. -/
def byteCount (s : List Char) : Nat := s.foldr (fun c n => c.utf8Size + n) 0

end IconMaker.Text
