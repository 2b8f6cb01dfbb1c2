import IconMaker.Toml.Strings

/-
  IconMaker.Toml.Numbers — numbers, dates and times.

  Decimal integers have no leading zero, underscores stand only between digits, and an
  integer fits 64 bits with a sign. A float has a fraction, an exponent or both; one that
  rounds to plus infinity is refused. A date must exist in the calendar, a time has seconds.
-/

namespace IconMaker.Toml

def isDigit (c : Char) : Bool := '0' ≤ c && c ≤ '9'

/-- Digits of class `p` and underscores between them; the digits, and the rest. -/
def digitsAfter (p : Char → Bool) : List Char → List Char × List Char
  | '_' :: d :: r =>
    if p d then
      let x := digitsAfter p r
      (d :: x.1, x.2)
    else ([], '_' :: d :: r)
  | d :: r =>
    if p d then
      let x := digitsAfter p r
      (d :: x.1, x.2)
    else ([], d :: r)
  | [] => ([], [])

def digits1? (p : Char → Bool) : List Char → Option (List Char × List Char)
  | d :: r =>
    if p d then
      let x := digitsAfter p r
      some (d :: x.1, x.2)
    else none
  | [] => none

/-- An optional sign: is it a minus, and the rest. -/
def sign : List Char → Bool × List Char
  | '-' :: r => (true, r)
  | '+' :: r => (false, r)
  | r => (false, r)

/-- The digits of a decimal integer without its sign. -/
def wholeDigits? : List Char → Option (List Char × List Char)
  | '0' :: r => some (['0'], r)
  | s => digits1? isDigit s

def inBase (base : Nat) (ds : List Char) : Nat :=
  ds.foldl (fun n c => base * n + (hexValue? c).getD 0) 0

def fits (i : Int) : Bool := -(2 ^ 63) ≤ i && i < 2 ^ 63

def integer? (i : Int) (r : List Char) : Option (Scalar × List Char) :=
  if fits i then some (.integer i, r) else none

/-- The exponent of a float, after its `e`. -/
def exponent? (s : List Char) : Option (Int × List Char) :=
  let (negative, r) := sign s
  (digits1? isDigit r).map fun x =>
    let n : Int := inBase 10 x.1
    (if negative then -n else n, x.2)

def isExponentMark (c : Char) : Bool := c == 'e' || c == 'E'

/-- The fraction and the exponent after the whole digits of a float: the digits of the
    fraction, the exponent and the rest; none if neither begins here. -/
def floatTail? : List Char → Option (List Char × Int × List Char)
  | '.' :: r =>
    match digits1? isDigit r with
    | none => none
    | some (ds, r') =>
      match r' with
      | e :: r'' =>
        if isExponentMark e then (exponent? r'').map fun x => (ds, x.1, x.2)
        else some (ds, 0, e :: r'')
      | [] => some (ds, 0, [])
  | e :: r => if isExponentMark e then (exponent? r).map fun x => ([], x.1, x.2) else none
  | [] => none

def float? (d : Binary64) (r : List Char) : Option (Scalar × List Char) :=
  if d = .infinite false then none else some (.float d, r)

def startsFloatTail : List Char → Bool
  | c :: _ => c == '.' || isExponentMark c
  | [] => false

def decimal? (s : List Char) : Option (Scalar × List Char) :=
  let (negative, r) := sign s
  match r with
  | 'i' :: 'n' :: 'f' :: r' => some (.float (.infinite negative), r')
  | 'n' :: 'a' :: 'n' :: r' => some (.float .nan, r')
  | _ =>
    match wholeDigits? r with
    | none => none
    | some (ds, r') =>
      if startsFloatTail r' then
        match floatTail? r' with
        | none => none
        | some (fs, e, r'') => float? (.ofDecimal negative (ds ++ fs) (e - fs.length)) r''
      else
        let n : Int := inBase 10 ds
        integer? (if negative then -n else n) r'

def based? (base : Nat) (p : Char → Bool) (s : List Char) : Option (Scalar × List Char) :=
  (digits1? p s).bind fun x => integer? (inBase base x.1) x.2

def number? : List Char → Option (Scalar × List Char)
  | '0' :: 'x' :: r => based? 16 (fun c => (hexValue? c).isSome) r
  | '0' :: 'o' :: r => based? 8 (fun c => '0' ≤ c && c ≤ '7') r
  | '0' :: 'b' :: r => based? 2 (fun c => c == '0' || c == '1') r
  | s => decimal? s

/-- Two digits with a value from `lo` to `hi`. -/
def twoDigits? (lo hi : Nat) : List Char → Option (Nat × List Char)
  | a :: b :: r =>
    if isDigit a && isDigit b then
      let n := inBase 10 [a, b]
      if lo ≤ n ∧ n ≤ hi then some (n, r) else none
    else none
  | _ => none

def expect (c : Char) : List Char → Option (List Char)
  | d :: r => if d = c then some r else none
  | [] => none

def isLeap (y : Nat) : Bool := y % 4 == 0 && (y % 100 != 0 || y % 400 == 0)

def daysIn (y m : Nat) : Nat :=
  if m = 2 then if isLeap y then 29 else 28
  else if m = 4 ∨ m = 6 ∨ m = 9 ∨ m = 11 then 30
  else 31

def date? : List Char → Option (List Char)
  | a :: b :: c :: d :: '-' :: r =>
    if [a, b, c, d].all isDigit then do
      let (m, r) ← twoDigits? 1 12 r
      let r ← expect '-' r
      let (_, r) ← twoDigits? 1 (daysIn (inBase 10 [a, b, c, d]) m) r
      return r
    else none
  | _ => none

/-- The part of a second, if there is one. -/
def secondPart : List Char → List Char
  | '.' :: d :: r => if isDigit d then r.dropWhile isDigit else '.' :: d :: r
  | r => r

def time? (s : List Char) : Option (List Char) := do
  let (_, r) ← twoDigits? 0 23 s
  let r ← expect ':' r
  let (_, r) ← twoDigits? 0 59 r
  let r ← expect ':' r
  let (_, r) ← twoDigits? 0 60 r
  return secondPart r

def offset? : List Char → Option (List Char)
  | c :: r =>
    if c = 'Z' ∨ c = 'z' then some r
    else if c = '+' ∨ c = '-' then do
      let (_, r) ← twoDigits? 0 23 r
      let r ← expect ':' r
      let (_, r) ← twoDigits? 0 59 r
      return r
    else none
  | [] => none

def dateTime? (s : List Char) : Option (Scalar × List Char) :=
  match date? s with
  | some (c :: r) =>
    match if c = 'T' ∨ c = 't' ∨ c = ' ' then time? r else none with
    | some r' => some (.dateTime, (offset? r').getD r')
    | none => some (.dateTime, c :: r)
  | some [] => some (.dateTime, [])
  | none => (time? s).map (.dateTime, ·)

/-- A boolean, a number, a date or a time. -/
def plainScalar? : List Char → Option (Scalar × List Char)
  | 't' :: 'r' :: 'u' :: 'e' :: r => some (.boolean true, r)
  | 'f' :: 'a' :: 'l' :: 's' :: 'e' :: r => some (.boolean false, r)
  | s =>
    match dateTime? s with
    | some x => some x
    | none => number? s

end IconMaker.Toml
