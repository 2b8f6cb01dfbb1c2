/-
  IconMaker.Decimal.Binary64 — binary floating-point numbers of 64 bits, exactly.

  A finite number is ±m·2^q with m < 2^53 and q ≥ -1074, and m ≥ 2^52 unless q = -1074.
  `ofDecimal` is the number nearest to a decimal, ties to even m. `text` is the shortest
  decimal that reads back as the number, the nearest of those, in positional notation and
  with at least one place after the point.
-/

namespace IconMaker

inductive Binary64 where
  | finite (negative : Bool) (m : Nat) (q : Int)
  | infinite (negative : Bool)
  | nan
  deriving DecidableEq, Repr

namespace Binary64

/-- `num / den` to the nearest whole number, a half to the even one. -/
def divRound (num den : Nat) : Nat :=
  let t := num / den
  let r := num % den
  if 2 * r > den ∨ (2 * r = den ∧ t % 2 = 1) then t + 1 else t

/-- `num / den / 2^q` as a fraction. -/
def scaled (num den : Nat) (q : Int) : Nat × Nat :=
  if q ≥ 0 then (num, den * 2 ^ q.toNat) else (num * 2 ^ (-q).toNat, den)

/-- The number nearest to `num / den`. -/
def ofRatio (negative : Bool) (num den : Nat) : Binary64 :=
  if num = 0 then .finite negative 0 (-1074)
  else
    let low : Int := (Nat.log2 num : Int) - Nat.log2 den - 53
    let above (q : Int) : Bool := (scaled num den q).1 / (scaled num den q).2 ≥ 2 ^ 53
    let q := max (-1074) (if above low then low + 1 else low)
    let m := divRound (scaled num den q).1 (scaled num den q).2
    let (m, q) := if m = 2 ^ 53 then (2 ^ 52, q + 1) else (m, q)
    if q > 971 then .infinite negative else .finite negative m q

/-- `digits · 10^e`, where `digits` are decimal digits. -/
def ofDecimal (negative : Bool) (digits : List Char) (e : Int) : Binary64 :=
  let d := digits.foldl (fun n c => 10 * n + (c.toNat - 48)) 0
  if d = 0 then .finite negative 0 (-1074)
  else if e > 400 then .infinite negative
  else if e + digits.length < -400 then .finite negative 0 (-1074)
  else if e ≥ 0 then ofRatio negative (d * 10 ^ e.toNat) 1
  else ofRatio negative d (10 ^ (-e).toNat)

/-- The decimal grid `10^p` has a point among the reals that round to `m · 2^q`: the
    nearest such point, in units of the grid. -/
def onGrid? (m : Nat) (q p : Int) : Option Nat :=
  let unit := if q ≥ 0 then 2 ^ q.toNat else 1
  let den := if q ≥ 0 then 4 else 4 * 2 ^ (-q).toNat
  let up (n : Nat) : Nat := if p ≥ 0 then n * unit else n * unit * 10 ^ (-p).toNat
  let grid := if p ≥ 0 then den * 10 ^ p.toNat else den
  let v := up (4 * m)
  let lo := up (4 * m - (if m = 2 ^ 52 ∧ q > -1074 then 1 else 2))
  let hi := up (4 * m + 2)
  let inside (x : Nat) : Bool := if m % 2 = 0 then lo ≤ x && x ≤ hi else lo < x && x < hi
  let a := v / grid
  match inside (a * grid), inside ((a + 1) * grid) with
  | true, true => some (if v - a * grid < (a + 1) * grid - v then a else a + 1)
  | true, false => some a
  | false, true => some (a + 1)
  | false, false => none

/-- An exponent with `m · 2^q < 10^top`. -/
def top (m : Nat) (q : Int) : Int :=
  let bits : Int := Nat.log2 m + 1 + q
  if bits ≥ 0 then bits * 4 / 13 + 1 else bits * 3 / 10 + 1

/-- Units and exponent of the coarsest grid that has a point for `m · 2^q`. -/
def shortest (m : Nat) (q : Int) : Nat × Int :=
  let points := (List.range 40).findSome? fun (k : Nat) =>
    let p := top m q - (k : Int)
    (onGrid? m q p).map fun units => (units, p)
  points.getD (0, 0)

/-- `units · 10^p` in positional notation. -/
def positional (units : Nat) (p : Int) : List Char :=
  let ds := Nat.toDigits 10 units
  if p ≥ 0 then ds ++ List.replicate p.toNat '0' ++ ['.', '0']
  else
    let k := (-p).toNat
    let ds := List.replicate (k + 1 - ds.length) '0' ++ ds
    ds.take (ds.length - k) ++ '.' :: ds.drop (ds.length - k)

def text : Binary64 → List Char
  | nan => "NaN".toList
  | infinite n => (if n then "-inf" else "inf").toList
  | finite n m q =>
    let body := if m = 0 then ['0', '.', '0'] else
      let r := shortest m q
      positional r.1 r.2
    if n then '-' :: body else body

end Binary64

end IconMaker
