import IconMaker.Checksum

/-
  IconMaker.Png.Chunk — the chunks of a PNG file.

  A chunk is the length of its data, a kind of four bytes, the data, and a check over kind
  and data. Bit 5 of the first byte of the kind tells chunks that can be left out from those
  that cannot. `next?` reads a whole chunk, `kind?` looks at the next one's length and kind
  only.
-/

namespace IconMaker.Png

def signature : Bytes := [0x89, 0x50, 0x4e, 0x47, 0x0d, 0x0a, 0x1a, 0x0a]

structure Chunk where
  kind : Bytes
  data : Bytes
  /-- Does the check agree? -/
  sound : Bool
  deriving DecidableEq, Repr

namespace Chunk

def header : Bytes := [0x49, 0x48, 0x44, 0x52]
def palette : Bytes := [0x50, 0x4c, 0x54, 0x45]
def imageData : Bytes := [0x49, 0x44, 0x41, 0x54]
def imageEnd : Bytes := [0x49, 0x45, 0x4e, 0x44]
def transparency : Bytes := [0x74, 0x52, 0x4e, 0x53]
def background : Bytes := [0x62, 0x4b, 0x47, 0x44]
def colorCode : Bytes := [0x63, 0x49, 0x43, 0x50]
def frameControl : Bytes := [0x66, 0x63, 0x54, 0x4c]
def frameData : Bytes := [0x66, 0x64, 0x41, 0x54]

def check (kind data : Bytes) : Bytes := Bytes.be 4 (Checksum.crc (kind ++ data)).toNat

def write (kind data : Bytes) : Bytes := Bytes.be 4 data.length ++ kind ++ data ++ check kind data

def next? (bs : Bytes) : Option (Chunk × Bytes) := do
  let (length, r) ← Bytes.split? 4 bs
  let (kind, r) ← Bytes.split? 4 r
  let (data, r) ← Bytes.split? (Bytes.ofBE length) r
  let (sum, r) ← Bytes.split? 4 r
  return (⟨kind, data, sum == check kind data⟩, r)

def kind? (bs : Bytes) : Option Bytes := do
  let (_, r) ← Bytes.split? 4 bs
  let (kind, _) ← Bytes.split? 4 r
  return kind

def isCritical (kind : Bytes) : Bool := (kind.headD 0).toNat / 32 % 2 == 0

end Chunk

end IconMaker.Png
