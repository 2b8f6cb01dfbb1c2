import IconMaker.Raster
import IconMaker.Filter

/-
  IconMaker.Resample — change of size by a separable filter.

  Each channel goes through a vertical pass and then a horizontal one, in floating-point
  numbers of 32 bits and without rounding in between. `taps` are the source samples that one
  output sample takes and their weights, which add up to one. An image that has the size
  asked for is not touched.
-/

namespace IconMaker.Resample

structure Kernel where
  support : Float32
  weight : Float32 → Float32

def pi : Float32 := 3.14159265358979323846

def sinc (t : Float32) : Float32 :=
  let a := t * pi
  if t == 0 then 1 else a.sin / a

/-- The cubic filter with parameters 0 and 1/2. -/
def cubic (x : Float32) : Float32 :=
  let b : Float32 := 0
  let c : Float32 := 0.5
  let a := x.abs
  let k :=
    if a < 1 then (12 - 9 * b - 6 * c) * (a * a * a) + (-18 + 12 * b + 6 * c) * (a * a) + (6 - 2 * b)
    else if a < 2 then
      (-b - 6 * c) * (a * a * a) + (6 * b + 30 * c) * (a * a) + (-12 * b - 48 * c) * a + (8 * b + 24 * c)
    else 0
  k / 6

/-- The normal density with standard deviation `r`. -/
def gauss (x r : Float32) : Float32 :=
  1 / ((2 * pi).sqrt * r) * (-(x * x) / (2 * (r * r))).exp

def kernel : Filter → Kernel
  | .nearest => ⟨0, fun _ => 1⟩
  | .triangle => ⟨1, fun x => if x.abs < 1 then 1 - x.abs else 0⟩
  | .catmullRom => ⟨2, cubic⟩
  | .gaussian => ⟨3, fun x => gauss x 0.5⟩
  | .lanczos3 => ⟨3, fun x => if x.abs < 3 then sinc x * sinc (x / 3) else 0⟩

structure Taps where
  first : Nat
  weights : Array Float32

/-- What output sample `o` takes when `n` samples become `m`. -/
def taps (k : Kernel) (n m o : Nat) : Taps :=
  let ratio := Float32.ofNat n / Float32.ofNat m
  let stretch := if ratio < 1 then 1 else ratio
  let reach := k.support * stretch
  let center := (Float32.ofNat o + 0.5) * ratio
  let first := min (center - reach).floor.toUInt64.toNat (n - 1)
  let last := max (first + 1) (min (center + reach).ceil.toUInt64.toNat n)
  let raw := (List.range (last - first)).map fun i =>
    k.weight ((Float32.ofNat (first + i) - (center - 0.5)) / stretch)
  let sum := raw.foldl (· + ·) 0
  ⟨first, (raw.map (· / sum)).toArray⟩

def weighted (t : Taps) (value : Nat → Float32) : Float32 :=
  Nat.fold t.weights.size (fun i h acc => acc + value (t.first + i) * t.weights[i]) 0

/-- The nearest sample up to `maxSample`, a half going away from zero. -/
def toSample (maxSample : Nat) (v : Float32) : UInt16 :=
  let top := Float32.ofNat maxSample
  UInt16.ofNat (min maxSample (if v < 0 then 0 else if v > top then top else v).round.toUInt16.toNat)

/-- The vertical pass: a plane of `height` rows of the source's width, channels kept. -/
def vertical (k : Kernel) (r : Raster) (height : Nat) : Array Float32 :=
  let row := r.width * r.format.channels
  let plane := (Array.range height).map fun o =>
    let t := taps k r.height height o
    Array.ofFn fun i : Fin row =>
      weighted t fun y => Float32.ofNat (r.samples.getD (y * row + i.val) 0).toNat
  plane.flatten

def resample (k : Kernel) (r : Raster) (width height : Nat) : Raster :=
  let tall := vertical k r height
  let columns := (Array.range width).map (taps k r.width width)
  let channels := r.format.channels
  Raster.tabulate width height r.format fun x y c =>
    toSample r.format.maxSample <| weighted (columns.getD x ⟨0, #[]⟩) fun i =>
      tall.getD ((y * r.width + i) * channels + c) 0

end Resample

/-- The raster in the size asked for, stretched if the proportions differ. -/
def Raster.resize (r : Raster) (filter : Filter) (width height : Nat) : Raster :=
  if r.width = width ∧ r.height = height then r
  else Resample.resample (Resample.kernel filter) r width height

end IconMaker
