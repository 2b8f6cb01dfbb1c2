import IconMaker.Proofs.Png.Filtering
import IconMaker.Proofs.Png.Interlacing
import IconMaker.Proofs.Zlib
import IconMaker.Png.Chunk
import IconMaker.Raster

/-
  IconMaker.Proofs.Png.Picture — what a PNG file is, from the writer's side.

  A `Picture` is what a file is to say: samples of some depth for every pixel, with a palette
  if they are indices, and colours made transparent. An `Encoding` is everything that a writer
  may choose about it: interlacing, the filter of each line, the bits that pad a line, how the
  data is compressed and where the stream is cut. `Encoding.file` is the file, and
  `Picture.loaded` the raster that it stands for, which has no part in the encoding.
-/

namespace IconMaker.Png

namespace ColorType

def hasColor : ColorType → Bool
  | rgb | indexed | rgba => true
  | grey | greyAlpha => false

def hasAlpha : ColorType → Bool
  | greyAlpha | rgba => true
  | grey | rgb | indexed => false

/-- The number of a colour type: 1 for a palette, 2 for colour, 4 for alpha. -/
def number (t : ColorType) : Nat :=
  (if t = indexed then 1 else 0) + (if t.hasColor then 2 else 0) + if t.hasAlpha then 4 else 0

/-- Samples per pixel; an index is one. -/
def channels (t : ColorType) : Nat :=
  if t = indexed then 1 else (if t.hasColor then 3 else 1) + if t.hasAlpha then 1 else 0

def legalDepths : ColorType → List Nat
  | grey => [1, 2, 4, 8, 16]
  | indexed => [1, 2, 4, 8]
  | rgb | greyAlpha | rgba => [8, 16]

end ColorType

/-- Colours made transparent. -/
inductive Clear where
  /-- The one of these samples. -/
  | color (samples : List Nat)
  /-- The first entries of the palette, by their alpha. -/
  | entries (alphas : Bytes)

structure Picture where
  width : Nat
  height : Nat
  depth : Nat
  color : ColorType
  /-- The sample of a channel at a column of a row. -/
  sample : Nat → Nat → Nat → Nat
  palette : List (UInt8 × UInt8 × UInt8)
  clear : Option Clear

namespace Picture

def channels (p : Picture) : Nat := p.color.channels

def ClearLegal (p : Picture) : Clear → Prop
  | .color vs => (p.color = .grey ∨ p.color = .rgb) ∧ vs.length = p.channels ∧ ∀ v ∈ vs, v < 2 ^ p.depth
  | .entries as => p.color = .indexed ∧ as ≠ [] ∧ as.length ≤ p.palette.length

structure Legal (p : Picture) : Prop where
  width : 1 ≤ p.width ∧ p.width < 2 ^ 31
  height : 1 ≤ p.height ∧ p.height < 2 ^ 31
  depth : p.depth ∈ p.color.legalDepths
  samples : ∀ x < p.width, ∀ y < p.height, ∀ c < p.channels, p.sample x y c < 2 ^ p.depth
  palette : p.color = .indexed → 1 ≤ p.palette.length ∧ p.palette.length ≤ 256 ∧
    ∀ x < p.width, ∀ y < p.height, p.sample x y 0 < p.palette.length
  clear : ∀ t ∈ p.clear, p.ClearLegal t

/-! ## The raster that is meant -/

def format (p : Picture) : Format where
  color := p.color.hasColor
  alpha := p.clear.isSome || p.color.hasAlpha
  wide := p.depth == 16

/-- Samples of fewer than eight bits are stretched to eight. -/
def stretched (p : Picture) (v : Nat) : Nat := if p.depth < 8 then v * (255 / (2 ^ p.depth - 1)) else v

/-- The alpha of a pixel that has none of its own. -/
def clearAlpha (p : Picture) (x y : Nat) : Nat :=
  match p.clear with
  | some (.entries as) => (as.getD (p.sample x y 0) 255).toNat
  | some (.color vs) => if (List.range p.channels).map (p.sample x y) = vs then 0 else p.format.maxSample
  | none => p.format.maxSample

def loadedSample (p : Picture) (x y c : Nat) : Nat :=
  if c < p.format.colors then
    if p.color = .indexed then
      let (r, g, b) := p.palette.getD (p.sample x y 0) (0, 0, 0)
      ([r, g, b].getD c 0).toNat
    else p.stretched (p.sample x y c)
  else if p.color.hasAlpha then p.stretched (p.sample x y c)
  else p.clearAlpha x y

def loaded (p : Picture) : Raster :=
  Raster.tabulate p.width p.height p.format fun x y c => UInt16.ofNat (p.loadedSample x y c)

def loadedBytes (p : Picture) : Nat := p.width * p.height * p.format.channels * p.format.sampleBytes

/-! ## Lines -/

/-- Bit `j` of a line, the high bit of each byte first. -/
def rowBit (row : Bytes) (j : Nat) : Bool := (row.getD (j / 8) 0).toNat.testBit (7 - j % 8)

/-- The line holds the samples of these pixels one after another, the high bit of each first.
    What pads it to a whole byte does not matter. -/
structure Packs (p : Picture) (columns : List Nat) (y : Nat) (row : Bytes) : Prop where
  length : row.length = (columns.length * p.channels * p.depth + 7) / 8
  bits : ∀ i < columns.length, ∀ c < p.channels, ∀ k < p.depth,
    rowBit row ((i * p.channels + c) * p.depth + k) = (p.sample (columns.getD i 0) y c).testBit (p.depth - 1 - k)

/-- Bytes from one pixel to the next, for the filters. -/
def pixelBytes (p : Picture) : Nat := (p.channels * p.depth + 7) / 8

/-- The lines of a pass. -/
def LegalPass (p : Picture) (interlaced : Bool) (n : Nat) (ls : List Line) : Prop :=
  List.Forall₂ (fun y l => l.kind < 5 ∧ p.Packs (columns interlaced n p.width y) y l.row)
    (rows interlaced n p.width p.height) ls

end Picture

/-! ## Files -/

structure Encoding where
  interlaced : Bool
  /-- The lines of each pass. -/
  passes : List (List Line)
  /-- The compressed lines in the pieces in which they are stored. -/
  pieces : List Bytes

namespace Encoding

/-- The filtered lines of all passes; above the first of each are zeros. -/
def data (p : Picture) (e : Encoding) : Bytes := e.passes.flatMap (filteredLines p.pixelBytes [])

structure Legal (rules : Deflate.Rules) (p : Picture) (e : Encoding) : Prop where
  passes : List.Forall₂ (p.LegalPass e.interlaced) (passNumbers e.interlaced) e.passes
  stream : Zlib.Expands rules e.pieces.flatten (e.data p)
  pieces : ∀ b ∈ e.pieces, b.length < 2 ^ 31

def headerData (p : Picture) (e : Encoding) : Bytes :=
  Bytes.be 4 p.width ++ Bytes.be 4 p.height
    ++ [UInt8.ofNat p.depth, UInt8.ofNat p.color.number, 0, 0, if e.interlaced then 1 else 0]

def paletteData (p : Picture) : Bytes := p.palette.flatMap fun (r, g, b) => [r, g, b]

def clearData : Clear → Bytes
  | .color vs => vs.flatMap (Bytes.be 2)
  | .entries as => as

def clearChunk : Option Clear → Bytes
  | some t => Chunk.write Chunk.transparency (clearData t)
  | none => []

/-- The chunks before the image data, behind the header. -/
def preambleChunks (p : Picture) : Bytes :=
  (if p.color = .indexed then Chunk.write Chunk.palette (paletteData p) else []) ++ clearChunk p.clear

def imageChunks (e : Encoding) : Bytes :=
  e.pieces.flatMap (Chunk.write Chunk.imageData) ++ Chunk.write Chunk.imageEnd []

def file (p : Picture) (e : Encoding) : Bytes :=
  signature ++ Chunk.write Chunk.header (e.headerData p) ++ preambleChunks p ++ e.imageChunks

end Encoding

end IconMaker.Png
