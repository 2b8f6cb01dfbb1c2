import IconMaker.Bytes

/-
  IconMaker.Png.Scanline — the five filters of scanlines.

  A filtered byte is the difference of a byte to a prediction from the byte of the pixel
  before it (`left`), the byte above it (`up`) and the one above the first (`corner`); bytes
  outside the image are 0. `restore` undoes what `apply` does, byte by byte from the left.
-/

namespace IconMaker.Png

inductive Predictor where
  | zero
  | left
  | up
  | average
  | paeth
  deriving DecidableEq, Repr

namespace Predictor

def code : Predictor → UInt8
  | zero => 0
  | left => 1
  | up => 2
  | average => 3
  | paeth => 4

def ofCode? (b : UInt8) : Option Predictor :=
  if b = 0 then some zero
  else if b = 1 then some left
  else if b = 2 then some up
  else if b = 3 then some average
  else if b = 4 then some paeth
  else none

/-- The neighbour nearest to `left + up - corner`; of equally near ones the first. -/
def nearest (left up corner : UInt8) : UInt8 :=
  let p : Int := (left.toNat : Int) + up.toNat - corner.toNat
  let dl := (p - left.toNat).natAbs
  let du := (p - up.toNat).natAbs
  let dc := (p - corner.toNat).natAbs
  if dl ≤ du ∧ dl ≤ dc then left else if du ≤ dc then up else corner

def predict (p : Predictor) (left up corner : UInt8) : UInt8 :=
  match p with
  | .zero => 0
  | .left => left
  | .up => up
  | .average => UInt8.ofNat ((left.toNat + up.toNat) / 2)
  | .paeth => nearest left up corner

/-- The byte `back` places before place `i` of a scanline. -/
def before (row : Array UInt8) (back i : Nat) : UInt8 :=
  if i < back then 0 else row.getD (i - back) 0

/-- Restores a scanline; `done` are the bytes restored so far. -/
def restore (p : Predictor) (back : Nat) (above : Array UInt8) : Bytes → Array UInt8 → Array UInt8
  | [], done => done
  | x :: r, done =>
    let i := done.size
    restore p back above r
      (done.push (x + p.predict (before done back i) (above.getD i 0) (before above back i)))

/-- Filters a scanline; `done` are the bytes filtered so far. -/
def apply (p : Predictor) (back : Nat) (above : Array UInt8) : Bytes → Array UInt8 → Bytes
  | [], _ => []
  | x :: r, done =>
    let i := done.size
    (x - p.predict (before done back i) (above.getD i 0) (before above back i))
      :: apply p back above r (done.push x)

end Predictor

/-- Restores `n` scanlines of `rowBytes` bytes below the one given. -/
def restoreRows (back rowBytes : Nat) : Nat → Array UInt8 → Bytes → Option (List (Array UInt8) × Bytes)
  | 0, _, bs => some ([], bs)
  | _ + 1, _, [] => none
  | n + 1, above, b :: bs =>
    match Predictor.ofCode? b, Bytes.split? rowBytes bs with
    | some p, some (row, bs') =>
      let done := p.restore back above row #[]
      match restoreRows back rowBytes n done bs' with
      | some (rows, rest) => some (done :: rows, rest)
      | none => none
    | _, _ => none

end IconMaker.Png
