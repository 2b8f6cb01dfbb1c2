import IconMaker.Bytes

/-
  IconMaker.Raster — images as samples, rows from the top, pixels from the left, channels
  within a pixel.

  A format says whether a pixel has three colour channels or one grey one, whether an alpha
  channel follows, and whether samples have 16 bits or 8. `tabulate` makes a raster from a
  function, `sample` reads one back. `toRgba8` keeps colour and alpha, copies grey to the
  three colours, makes a missing alpha opaque and rounds 16 bits to 8.
-/

namespace IconMaker

structure Format where
  color : Bool
  alpha : Bool
  wide : Bool
  deriving DecidableEq, Repr

namespace Format

def colors (f : Format) : Nat := if f.color then 3 else 1

def channels (f : Format) : Nat := f.colors + if f.alpha then 1 else 0

def sampleBytes (f : Format) : Nat := if f.wide then 2 else 1

def maxSample (f : Format) : Nat := if f.wide then 65535 else 255

def rgba8 : Format := ⟨true, true, false⟩

end Format

structure Raster where
  width : Nat
  height : Nat
  format : Format
  samples : Array UInt16
  size_samples : samples.size = width * height * format.channels

namespace Raster

def tabulate (width height : Nat) (format : Format) (f : Nat → Nat → Nat → UInt16) : Raster where
  width := width
  height := height
  format := format
  samples := Array.ofFn fun i : Fin (width * height * format.channels) =>
    let p := i.val / format.channels
    f (p % width) (p / width) (i.val % format.channels)
  size_samples := Array.size_ofFn

/-- The sample of channel `c` at column `x` of row `y`. -/
def sample (r : Raster) (x y c : Nat) : UInt16 :=
  r.samples.getD ((y * r.width + x) * r.format.channels + c) 0

/-- The bytes of all samples, the high one of two first. -/
def bytes (r : Raster) : Bytes :=
  r.samples.toList.flatMap fun (s : UInt16) =>
    if r.format.wide then [(s >>> 8).toUInt8, s.toUInt8] else [s.toUInt8]

/-- A sample of 8 bits. -/
def narrow (wide : Bool) (s : UInt16) : UInt16 :=
  if wide then UInt16.ofNat ((s.toNat + 128) / 257) else s

/-- Channel `c` of a pixel of four channels. -/
def rgba8Sample (r : Raster) (x y c : Nat) : UInt16 :=
  if c < 3 then narrow r.format.wide (r.sample x y (if r.format.color then c else 0))
  else if r.format.alpha then narrow r.format.wide (r.sample x y r.format.colors)
  else 255

def toRgba8 (r : Raster) : Raster := tabulate r.width r.height .rgba8 r.rgba8Sample

end Raster

end IconMaker
