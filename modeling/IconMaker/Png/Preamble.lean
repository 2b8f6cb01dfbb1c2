import IconMaker.Png.Chunk
import IconMaker.Png.Header

/-
  IconMaker.Png.Preamble — what a PNG file says before its image data.

  `readHeader` reads the signature and the header, `readPreamble` the chunks up to the image
  data. A chunk that can be left out is ignored when its check or its content is wrong.
  Errors even so: a frame control chunk of wrong length, or wrong in what it says; a colour
  space by code that says what it cannot; a background before the palette of an indexed
  image.
-/

namespace IconMaker.Png

/-- What a transparency chunk says. -/
inductive Transparency where
  /-- The stored samples that are transparent; none if nothing can match. -/
  | key (samples : Option (List Nat))
  /-- The alpha of the first palette entries. -/
  | alphas (bytes : Bytes)
  deriving DecidableEq, Repr

structure Preamble where
  header : Header
  palette : Option Bytes
  transparency : Option Transparency
  /-- The sequence number of the last frame control chunk. -/
  sequence : Option Nat
  /-- Has a colour space been given by code? -/
  colorCoded : Bool
  deriving DecidableEq, Repr

/-- The key of one value of two bytes per channel. Below 16 bits only the low bytes count,
    and more bytes than there should be count only with 16 bits, where they match nothing. -/
def keyOf (depth channels : Nat) (data : Bytes) : Option Transparency :=
  if data.length < 2 * channels then none
  else
    let pair (i : Nat) := (data.getD (2 * i) 0).toNat * 256 + (data.getD (2 * i + 1) 0).toNat
    let values := (List.range channels).map pair
    if depth < 16 then some (.key (some (values.map (· % 256))))
    else some (.key (if data.length = 2 * channels then some values else none))

/-- The transparency that a chunk gives the image, if it is one for its colour type. -/
def transparencyOf (p : Preamble) (data : Bytes) : Option Transparency :=
  match p.header.color with
  | .grey => keyOf p.header.depth 1 data
  | .rgb => keyOf p.header.depth 3 data
  | .indexed => if p.palette.isSome && data != [] then some (.alphas data) else none
  | .greyAlpha | .rgba => none

/-- The longest transparency chunk; a longer one is passed over. -/
def maxTransparency : Nat := 256

/-- The longest background chunk; a longer one is passed over. -/
def maxBackground : Nat := 6

/-- The length of a colour space by code; one of another length is passed over. -/
def colorCodeLength : Nat := 4

/-- The length of a frame control chunk; one of another length is an error. -/
def frameControlLength : Nat := 26

/-- A colour space by code has the identity matrix and a range that is full or is not. -/
def colorCodeFits (data : Bytes) : Bool := data.getD 2 0 == 0 && (data.getD 3 0).toNat ≤ 1

/-- A frame control chunk before the image data follows the last one and is for the whole
    canvas. -/
def frameFits (p : Preamble) (data : Bytes) : Bool :=
  let number (i : Nat) := Bytes.ofBE ((data.drop i).take 4)
  let expected := match p.sequence with
    | none => 0
    | some n => n + 1
  number 0 == expected && number 4 == p.header.width && number 8 == p.header.height
    && number 12 == 0 && number 16 == 0 && (data.getD 24 0).toNat ≤ 2 && (data.getD 25 0).toNat ≤ 1

/-- Takes one chunk that can be left out and whose check agrees. -/
def Preamble.takeSound (p : Preamble) (c : Chunk) : Option Preamble :=
  if c.kind == Chunk.transparency && c.data.length ≤ maxTransparency then
    some { p with transparency := p.transparency.or (transparencyOf p c.data) }
  else if c.kind == Chunk.background && c.data.length ≤ maxBackground then
    if p.header.color == .indexed && p.palette.isNone then none else some p
  else if c.kind == Chunk.colorCode && c.data.length == colorCodeLength then
    if p.palette.isSome || p.colorCoded then some p
    else if colorCodeFits c.data then some { p with colorCoded := true }
    else none
  else if c.kind == Chunk.frameControl then
    if frameFits p c.data then some { p with sequence := some (Bytes.ofBE (c.data.take 4)) } else none
  else some p

/-- Takes one chunk that comes before the image data. -/
def Preamble.take (p : Preamble) (c : Chunk) : Option Preamble :=
  if Chunk.isCritical c.kind then
    if c.sound && c.kind == Chunk.palette && p.palette.isNone && 3 ≤ c.data.length && c.data.length ≤ 768 then
      some { p with palette := some c.data }
    else none
  else if c.kind == Chunk.frameData then none
  else if c.kind == Chunk.frameControl && c.data.length != frameControlLength then none
  else if c.sound then p.takeSound c
  else some p

/-- The chunks up to the first one of image data, and the file from there. -/
def readPreamble (p : Preamble) (bs : Bytes) : Option (Preamble × Bytes) :=
  if Chunk.kind? bs = some Chunk.imageData then some (p, bs)
  else
    match Chunk.next? bs with
    | none => none
    | some (c, rest) =>
      match p.take c with
      | none => none
      | some p' => if rest.length < bs.length then readPreamble p' rest else none
termination_by bs.length

def readHeader (bs : Bytes) : Option (Preamble × Bytes) := do
  let (sign, r) ← Bytes.split? 8 bs
  let (c, r) ← Chunk.next? r
  if sign = signature ∧ c.kind = Chunk.header ∧ c.sound then
    let h ← Header.ofData? c.data
    return (⟨h, none, none, none, false⟩, r)
  else none

end IconMaker.Png
