import IconMaker.Png.Encode

/-
  IconMaker.Icon — the container of an icon file.

  A file is a header (0, type 1, number of entries), a directory with one record per entry,
  and the payloads. A record states the edges in one byte each (256 as 0), 32 bits per pixel,
  and the length and the place of its payload. `encode` writes the payloads in order behind
  the directory and refuses no entry or more than 65535. `parse?` is a reader of its own: it
  wants the payloads in the order of the directory, without gaps, up to the end of the file.
-/

namespace IconMaker

/-- One entry to be written. -/
structure Frame where
  width : Nat
  height : Nat
  payload : Bytes
  deriving DecidableEq, Repr

/-- A raster as an entry; both sides have to fit a directory record. -/
def Frame.ofRaster? [Png.Writer] (r : Raster) : Option Frame :=
  if 1 ≤ r.width ∧ r.width ≤ 256 ∧ 1 ≤ r.height ∧ r.height ≤ 256 then
    some ⟨r.width, r.height, Png.Writer.write r⟩
  else none

namespace Icon

def headerSize : Nat := 6
def recordSize : Nat := 16
def maxEntries : Nat := 65535
def bitsPerPixel : Nat := 32

def record (f : Frame) (offset : Nat) : Bytes :=
  [UInt8.ofNat f.width, UInt8.ofNat f.height, 0, 0] ++ Bytes.le 2 0 ++ Bytes.le 2 bitsPerPixel
    ++ Bytes.le 4 f.payload.length ++ Bytes.le 4 offset

/-- The records of entries whose payloads begin at `offset`. -/
def directory : Nat → List Frame → Bytes
  | _, [] => []
  | offset, f :: fs => record f offset ++ directory (offset + f.payload.length) fs

def encode (fs : List Frame) : Option Bytes :=
  if fs = [] ∨ fs.length > maxEntries then none
  else
    some (Bytes.le 2 0 ++ Bytes.le 2 1 ++ Bytes.le 2 fs.length
      ++ directory (headerSize + recordSize * fs.length) fs ++ fs.flatMap Frame.payload)

/-- A directory record as read. -/
structure Record where
  width : UInt8
  height : UInt8
  colors : UInt8
  reserved : UInt8
  planes : Nat
  bits : Nat
  length : Nat
  offset : Nat
  deriving DecidableEq, Repr

def Record.ofBytes? : Bytes → Option (Record × Bytes)
  | w :: h :: c :: z :: p₀ :: p₁ :: b₀ :: b₁ :: l₀ :: l₁ :: l₂ :: l₃ :: o₀ :: o₁ :: o₂ :: o₃ :: r =>
    some (⟨w, h, c, z, Bytes.ofLE [p₀, p₁], Bytes.ofLE [b₀, b₁], Bytes.ofLE [l₀, l₁, l₂, l₃],
      Bytes.ofLE [o₀, o₁, o₂, o₃]⟩, r)
  | _ => none

def records? : Nat → Bytes → Option (List Record × Bytes)
  | 0, bs => some ([], bs)
  | n + 1, bs =>
    match Record.ofBytes? bs with
    | none => none
    | some (r, bs') => (records? n bs').map fun x => (r :: x.1, x.2)

/-- The payloads of the records, the first one at `offset`. -/
def payloads? : Nat → List Record → Bytes → Option (List (Record × Bytes))
  | _, [], bs => if bs = [] then some [] else none
  | offset, r :: rs, bs =>
    if r.offset = offset then
      match Bytes.split? r.length bs with
      | none => none
      | some (p, bs') => (payloads? (offset + r.length) rs bs').map ((r, p) :: ·)
    else none

def parse? : Bytes → Option (List (Record × Bytes))
  | z₀ :: z₁ :: t₀ :: t₁ :: n₀ :: n₁ :: r =>
    if Bytes.ofLE [z₀, z₁] = 0 ∧ Bytes.ofLE [t₀, t₁] = 1 then
      let n := Bytes.ofLE [n₀, n₁]
      match records? n r with
      | none => none
      | some (rs, r') => payloads? (headerSize + recordSize * n) rs r'
    else none
  | _ => none

end Icon

end IconMaker
