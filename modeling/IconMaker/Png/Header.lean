import IconMaker.Raster

/-
  IconMaker.Png.Header — the header of a PNG image: size, colour type, depth, interlacing.

  `ofData?` accepts the legal headers and no others: both sides from 1 to 2^31 - 1, a depth
  that the colour type allows, and the only methods of compression and filtering there are.
  `data` writes a header.
-/

namespace IconMaker.Png

inductive ColorType where
  | grey
  | rgb
  | indexed
  | greyAlpha
  | rgba
  deriving DecidableEq, Repr

namespace ColorType

def code : ColorType → Nat
  | grey => 0
  | rgb => 2
  | indexed => 3
  | greyAlpha => 4
  | rgba => 6

def ofCode? : Nat → Option ColorType
  | 0 => some grey
  | 2 => some rgb
  | 3 => some indexed
  | 4 => some greyAlpha
  | 6 => some rgba
  | _ => none

/-- Samples per pixel as stored. -/
def samples : ColorType → Nat
  | grey => 1
  | rgb => 3
  | indexed => 1
  | greyAlpha => 2
  | rgba => 4

def depths : ColorType → List Nat
  | grey => [1, 2, 4, 8, 16]
  | rgb => [8, 16]
  | indexed => [1, 2, 4, 8]
  | greyAlpha => [8, 16]
  | rgba => [8, 16]

end ColorType

structure Header where
  width : Nat
  height : Nat
  depth : Nat
  color : ColorType
  interlaced : Bool
  deriving DecidableEq, Repr

namespace Header

def maxSide : Nat := 2 ^ 31 - 1

def isLegal (h : Header) : Bool :=
  1 ≤ h.width && h.width ≤ maxSide && 1 ≤ h.height && h.height ≤ maxSide && h.color.depths.contains h.depth

def data (h : Header) : Bytes :=
  Bytes.be 4 h.width ++ Bytes.be 4 h.height
    ++ [UInt8.ofNat h.depth, UInt8.ofNat h.color.code, 0, 0, if h.interlaced then 1 else 0]

def ofData? (bs : Bytes) : Option Header := do
  let (w, r) ← Bytes.split? 4 bs
  let (ht, r) ← Bytes.split? 4 r
  match r with
  | [depth, color, compression, filter, interlace] =>
    let color ← ColorType.ofCode? color.toNat
    let h : Header := ⟨Bytes.ofBE w, Bytes.ofBE ht, depth.toNat, color, interlace == 1⟩
    if h.isLegal && compression == 0 && filter == 0 && interlace.toNat ≤ 1 then some h else none
  | _ => none

def bitsPerPixel (h : Header) : Nat := h.depth * h.color.samples

/-- Bytes of a scanline of `width` pixels, without its filter byte. -/
def rowBytes (h : Header) (width : Nat) : Nat := (width * h.bitsPerPixel + 7) / 8

/-- How far back in a scanline the byte of the pixel before lies. -/
def pixelBytes (h : Header) : Nat := max 1 (h.bitsPerPixel / 8)

/-- The format in which the image is loaded, `transparent` if colours have been made so. -/
def format (h : Header) (transparent : Bool) : Format where
  color := match h.color with
    | .rgb | .indexed | .rgba => true
    | .grey | .greyAlpha => false
  alpha := transparent || h.color == .greyAlpha || h.color == .rgba
  wide := h.depth == 16

end Header

end IconMaker.Png
