import IconMaker.Png.Header
import IconMaker.Png.Scanline

/-
  IconMaker.Png.Interlace — the passes in which the pixels of an image are stored.

  A pass holds the pixels of every `dx`-th column from `x0` in every `dy`-th row from `y0`.
  An image that is not interlaced has one pass of all pixels, an interlaced one has seven,
  and every pixel is in exactly one of them. A pass without pixels takes no data.
-/

namespace IconMaker.Png

structure Pass where
  x0 : Nat
  y0 : Nat
  dx : Nat
  dy : Nat
  deriving DecidableEq, Repr

namespace Pass

def whole : Pass := ⟨0, 0, 1, 1⟩

def seven : List Pass :=
  [⟨0, 0, 8, 8⟩, ⟨4, 0, 8, 8⟩, ⟨0, 4, 4, 8⟩, ⟨2, 0, 4, 4⟩, ⟨0, 2, 2, 4⟩, ⟨1, 0, 2, 2⟩, ⟨0, 1, 1, 2⟩]

def width (p : Pass) (w : Nat) : Nat := (w - p.x0 + p.dx - 1) / p.dx
def height (p : Pass) (h : Nat) : Nat := (h - p.y0 + p.dy - 1) / p.dy

def holds (p : Pass) (x y : Nat) : Bool := x % p.dx == p.x0 && y % p.dy == p.y0

end Pass

def Header.passes (h : Header) : List Pass := if h.interlaced then Pass.seven else [Pass.whole]

/-- Bytes of all scanlines with their filter bytes. Here a pass without columns counts the
    filter bytes that it would have. -/
def Header.scanlineBytes (h : Header) : Nat :=
  h.passes.foldr (fun p n => p.height h.height * (1 + h.rowBytes (p.width h.width)) + n) 0

/-- The restored scanlines of one pass. -/
abbrev PassRows := Pass × Array (Array UInt8)

/-- Reads the scanlines of passes one after another. -/
def readPasses (h : Header) : List Pass → Bytes → Option (List PassRows)
  | [], _ => some []
  | p :: ps, bs =>
    if p.width h.width = 0 then (readPasses h ps bs).map ((p, #[]) :: ·)
    else
      match restoreRows h.pixelBytes (h.rowBytes (p.width h.width)) (p.height h.height) #[] bs with
      | none => none
      | some (rows, rest) => (readPasses h ps rest).map ((p, rows.toArray) :: ·)

/-- Sample `i` of a scanline, samples of `depth` bits from the high end of each byte. -/
def packedSample (depth : Nat) (row : Array UInt8) (i : Nat) : Nat :=
  if depth = 16 then (row.getD (2 * i) 0).toNat * 256 + (row.getD (2 * i + 1) 0).toNat
  else if depth = 8 then (row.getD i 0).toNat
  else (row.getD (i * depth / 8) 0).toNat / 2 ^ (8 - depth - i * depth % 8) % 2 ^ depth

/-- Sample `c` of the pixel at column `x` of row `y`, as stored. -/
def storedSample (h : Header) (passes : List PassRows) (x y c : Nat) : Nat :=
  match passes.find? fun p => p.1.holds x y with
  | none => 0
  | some (p, rows) => packedSample h.depth (rows.getD (y / p.dy) #[]) (x / p.dx * h.color.samples + c)

end IconMaker.Png
