import IconMaker.Text.Utf8
import IconMaker.Text.Property

/-
  IconMaker.Text.Quoted — texts and byte strings between double quotes.

  A quote, a backslash and four control characters get a letter after a backslash, every
  other character that does not show by itself is written by its number, and all others
  stand for themselves. Of a byte string the broken runs are written byte by byte.
-/

namespace IconMaker.Text

def hexLower (n : Nat) : List Char := Nat.toDigits 16 n

/-- Two upper-case digits. -/
def hexUpper2 (b : UInt8) : List Char :=
  let digit (n : Nat) : Char := if n < 10 then Char.ofNat (48 + n) else Char.ofNat (55 + n)
  [digit (b.toNat / 16), digit (b.toNat % 16)]

def escapeChar (c : Char) : List Char :=
  if c = '\x00' then ['\\', '0']
  else if c = '\t' then ['\\', 't']
  else if c = '\r' then ['\\', 'r']
  else if c = '\n' then ['\\', 'n']
  else if c = '"' then ['\\', '"']
  else if c = '\\' then ['\\', '\\']
  else if isShown c then [c]
  else ['\\', 'u', '\x7b'] ++ hexLower c.toNat ++ ['\x7d']

def escapePiece : Piece → List Char
  | .char c => escapeChar c
  | .broken bs => bs.flatMap fun b => '\\' :: 'x' :: hexUpper2 b

def between (body : List Char) : List Char := '"' :: (body ++ ['"'])

def quoted (s : List Char) : List Char := between (s.flatMap escapeChar)

def quotedBytes (bs : Bytes) : List Char := between ((pieces bs).flatMap escapePiece)

end IconMaker.Text
