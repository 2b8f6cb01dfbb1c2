import IconMaker.Png.Interlace
import IconMaker.Png.Preamble
import IconMaker.Zlib

/-
  IconMaker.Png.Decode — from the bytes of a PNG file to a raster.

  What has to be right: the preamble, with a palette if the image is indexed; the checks of
  all chunks in the first run of image data, and the beginning of a chunk after it; and as
  much of that data as makes up the scanlines.
-/

namespace IconMaker.Png

/-- The colours of a palette. -/
def colorsOf : Bytes → List (UInt8 × UInt8 × UInt8)
  | r :: g :: b :: rest => (r, g, b) :: colorsOf rest
  | _ => []

/-- The data of the chunks of image data at the start; the beginning of another chunk has to
    follow. -/
def readImageData (bs : Bytes) : Option (List Bytes) :=
  match Chunk.kind? bs with
  | none => none
  | some k =>
    if k = Chunk.imageData then
      match Chunk.next? bs with
      | none => none
      | some (c, rest) =>
        if c.sound ∧ rest.length < bs.length then (readImageData rest).map (c.data :: ·) else none
    else some []
termination_by bs.length

def black : UInt8 × UInt8 × UInt8 := (0, 0, 0)

/-- A stored sample in the range of the loaded format. -/
def scaleSample (depth v : Nat) : Nat := if depth < 8 then v * 255 / (2 ^ depth - 1) else v

/-- The alpha of a palette entry: a list longer than the palette says nothing. -/
def paletteAlpha (colors : Nat) (t : Option Transparency) (i : Nat) : Nat :=
  match t with
  | some (.alphas as) => if as.length ≤ colors then (as.getD i 255).toNat else 255
  | _ => 255

/-- Channel `c` of a pixel in the loaded format, `stored` giving its stored samples. -/
def loadedSample (p : Preamble) (colors : Array (UInt8 × UInt8 × UInt8)) (stored : Nat → Nat) (c : Nat) : Nat :=
  match p.header.color with
  | .indexed =>
    let i := stored 0
    let color := colors.getD i black
    if c = 0 then color.1.toNat
    else if c = 1 then color.2.1.toNat
    else if c = 2 then color.2.2.toNat
    else paletteAlpha colors.size p.transparency i
  | color =>
    if c < color.samples then scaleSample p.header.depth (stored c)
    else
      match p.transparency with
      | some (.key (some k)) =>
        if (List.range color.samples).map stored = k then 0 else if p.header.depth = 16 then 65535 else 255
      | _ => if p.header.depth = 16 then 65535 else 255

def Preamble.format (p : Preamble) : Format := p.header.format p.transparency.isSome

/-- Bytes of the samples of the loaded image. -/
def Preamble.loadedBytes (p : Preamble) : Nat :=
  p.header.width * p.header.height * p.format.channels * p.format.sampleBytes

def maxLoadedBytes : Nat := 512 * 1024 * 1024

/-- The raster of an image whose scanlines have been read. -/
def raster (p : Preamble) (passes : List PassRows) : Raster :=
  let colors := (colorsOf (p.palette.getD [])).toArray
  Raster.tabulate p.header.width p.header.height p.format fun x y c =>
    UInt16.ofNat (loadedSample p colors (storedSample p.header passes x y) c)

def decode (bs : Bytes) : Option Raster := do
  let (p, r) ← readHeader bs
  let (p, r) ← readPreamble p r
  if p.header.color = .indexed ∧ p.palette = none then none
  else if p.loadedBytes > maxLoadedBytes then none
  else
    let pieces ← readImageData r
    let scanlines ← Zlib.expand p.header.scanlineBytes pieces
    let passes ← readPasses p.header p.header.passes scanlines.toList
    return raster p passes

end IconMaker.Png
