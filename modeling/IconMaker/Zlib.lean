import IconMaker.Deflate.Inflate
import IconMaker.Checksum

/-
  IconMaker.Zlib — deflate streams in a zlib container.

  `expand` reads one that comes in pieces, up to a limit on its output. A stream that does
  not reach the limit has to be there in full, with the four bytes of the sum behind it; of
  one that does, no piece after the one that reaches it is looked at. What the sum says does
  not matter. `stored` writes a stream of stored blocks.
-/

namespace IconMaker.Zlib

/-- Deflate with a window of at most 32 KiB, no preset dictionary, check bits right. -/
def headerFits (a b : UInt8) : Bool :=
  a.toNat % 16 == 8 && a.toNat / 16 ≤ 7 && b.toNat / 32 % 2 == 0 && (a.toNat * 256 + b.toNat) % 31 == 0

inductive Expansion where
  /-- Fewer than the two bytes of the header have come. -/
  | opening (bytes : Bytes)
  | body (inflater : Deflate.Inflater)
  deriving DecidableEq, Repr

namespace Expansion

def start : Expansion := .opening []

/-- One more piece; nothing if the stream is wrong. -/
def feed (limit : Nat) (piece : Bytes) : Expansion → Option Expansion
  | .opening bs =>
    match bs ++ piece with
    | a :: b :: r => if headerFits a b then (Deflate.Inflater.start.feed limit r).map .body else none
    | bs' => some (.opening bs')
  | .body x => (x.feed limit piece).map .body

/-- Is the stream there in full? -/
def isWhole (x : Deflate.Inflater) : Bool :=
  match x.phase, x.source.rest with
  | .ended, _ :: _ :: _ :: _ :: _ => true
  | _, _ => false

/-- The output, once no more pieces are needed. -/
def output? (limit : Nat) : Expansion → Option (Array UInt8)
  | .opening _ => none
  | .body x => if limit ≤ x.out.size ∨ isWhole x then some x.out else none

end Expansion

def expandFrom (limit : Nat) (x : Expansion) : List Bytes → Option (Array UInt8)
  | [] => none
  | piece :: pieces =>
    match x.feed limit piece with
    | none => none
    | some y =>
      match y.output? limit with
      | some out => some out
      | none => expandFrom limit y pieces

def expand (limit : Nat) (pieces : List Bytes) : Option (Array UInt8) :=
  expandFrom limit .start pieces

def maxStored : Nat := 65535

/-- Stored blocks, the last one marked. -/
def storedBlocks (data : Bytes) : Bytes :=
  if data.length ≤ maxStored then
    1 :: (Bytes.le 2 data.length ++ Bytes.le 2 (65535 - data.length) ++ data)
  else
    0 :: (Bytes.le 2 maxStored ++ Bytes.le 2 0 ++ data.take maxStored ++ storedBlocks (data.drop maxStored))
termination_by data.length
decreasing_by
  simp only [List.length_drop, maxStored] at *
  omega

def stored (data : Bytes) : Bytes :=
  0x78 :: 0x01 :: (storedBlocks data ++ Bytes.be 4 (Checksum.adler data))

end IconMaker.Zlib
