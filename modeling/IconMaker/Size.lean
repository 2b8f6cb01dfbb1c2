import IconMaker.Text.Quoted

/-
  IconMaker.Size — the edge length of one square icon entry, 1 to 256 pixels.

  A size is written `NxN` and read from `N` or `NxN`: numerals of ASCII digits with at most
  one `+` in front, below 2^32, blanks allowed around each. `SizeError` has every reason why
  a size or a list of sizes is refused.
-/

namespace IconMaker

/-- The largest edge that a directory entry of an icon file can state. -/
def maxEdge : Nat := 256

structure Size where
  edge : Nat
  pos : 0 < edge
  le_max : edge ≤ maxEdge
  deriving DecidableEq, Repr

namespace Size

theorem ext {a b : Size} (h : a.edge = b.edge) : a = b := by
  cases a; cases b; cases h; rfl

def text (s : Size) : List Char := Nat.toDigits 10 s.edge ++ 'x' :: Nat.toDigits 10 s.edge

instance : Ord Size := ⟨fun a b => compare a.edge b.edge⟩

end Size

inductive SizeError where
  | zero
  | tooLarge (edge : Nat)
  | notSquare (width height : Nat)
  /-- The text with the blanks around it removed. -/
  | malformed (text : List Char)
  | empty
  | duplicate (size : Size)
  deriving DecidableEq, Repr

namespace SizeError

def decimal (n : Nat) : String := String.ofList (Nat.toDigits 10 n)

def message : SizeError → String
  | zero => "Icon size must be positive"
  | tooLarge n => "Icon size " ++ decimal n ++ " exceeds the ICO maximum of " ++ decimal maxEdge
  | notSquare w h => "Icon size " ++ decimal w ++ "x" ++ decimal h ++ " is not square"
  | malformed t => "Invalid icon size " ++ String.ofList (Text.quoted t) ++ ", expected N or NxN"
  | empty => "Icon size list is empty"
  | duplicate s => "Icon size " ++ String.ofList s.text ++ " is requested more than once"

end SizeError

namespace Size

def ofEdge (n : Nat) : Except SizeError Size :=
  if h : n = 0 then .error .zero
  else if h' : n ≤ maxEdge then .ok ⟨n, Nat.pos_of_ne_zero h, h'⟩
  else .error (.tooLarge n)

def ofPair (w h : Nat) : Except SizeError Size :=
  if w = h then ofEdge w else .error (.notSquare w h)

def digitsValue (ds : List Char) : Nat := ds.foldl (fun n c => 10 * n + (c.toNat - 48)) 0

/-- Numbers are below this. -/
def maxNumber : Nat := 2 ^ 32

/-- The value of a numeral below `limit`. -/
def numeral? (limit : Nat) (s : List Char) : Option Nat :=
  let ds := match s with
    | '+' :: r => r
    | r => r
  if ds ≠ [] ∧ ds.all Char.isDigit ∧ digitsValue ds < limit then some (digitsValue ds) else none

def isCross (c : Char) : Bool := c == 'x' || c == 'X'

def parse (s : List Char) : Except SizeError Size :=
  let t := Text.trim s
  let bad : SizeError := .malformed t
  match t.span (fun c => !isCross c) with
  | (_, []) =>
    match numeral? maxNumber t with
    | some n => ofEdge n
    | none => .error bad
  | (w, _ :: h) =>
    match numeral? maxNumber (Text.trim w), numeral? maxNumber (Text.trim h) with
    | some a, some b => ofPair a b
    | _, _ => .error bad

end Size

end IconMaker
