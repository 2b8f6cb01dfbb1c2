import IconMaker.Deflate.Source

/-
  IconMaker.Deflate.Code — canonical prefix codes.

  A code is given by one length per symbol, 0 for a symbol that does not occur. `ofLengths`
  groups the symbols by length; within a group, and from one group to the next, codewords
  are consecutive numbers. `read` walks down the groups with one bit for each and needs no
  table: it counts how far the bits read so far lie beyond the codewords of their length.
-/

namespace IconMaker.Deflate

/-- Why reading a stream stops before its end. -/
inductive Halt where
  /-- The bits ran out. -/
  | exhausted
  /-- The bits say something that has no meaning. -/
  | invalid
  deriving DecidableEq, Repr

/-- The symbols with codewords of length 1, 2, and so on. -/
abbrev Code := List (Array Nat)

namespace Code

def maxLength : Nat := 15

/-- The symbols of one length, `first` being the first symbol of the list. -/
def ofLength (length : Nat) (first : Nat) : List Nat → List Nat
  | [] => []
  | l :: r => if l = length then first :: ofLength length (first + 1) r else ofLength length (first + 1) r

def dropEmptyEnd (c : Code) : Code := (c.reverse.dropWhile (·.isEmpty)).reverse

def ofLengths (lengths : List Nat) : Code :=
  dropEmptyEnd ((List.range maxLength).map fun k => (ofLength (k + 1) 0 lengths).toArray)

/-- Codewords of the next length that are free after those of `c`, if there are enough. -/
def free : Nat → Code → Option Nat
  | n, [] => some n
  | n, g :: gs => if g.size ≤ 2 * n then free (2 * n - g.size) gs else none

/-- Does every sequence of bits begin with a codeword? -/
def isComplete (c : Code) : Bool := free 1 c == some 0

/-- A code of one symbol, of length 1. -/
def isSingle (c : Code) : Bool :=
  match c with
  | [g] => g.size == 1
  | _ => false

/-- A symbol and the number of bits of its codeword. -/
structure Codeword where
  symbol : Nat
  length : Nat
  deriving DecidableEq, Repr

/-- Reads on after `depth` bits that lie `offset` beyond the codewords of their length. -/
def readFrom : Code → Nat → Nat → Source → Except Halt (Codeword × Source)
  | [], _, _, _ => .error .invalid
  | g :: gs, depth, offset, s =>
    match s.next? with
    | none => .error .exhausted
    | some (b, s') =>
      let x := 2 * offset + b.toNat
      if h : x < g.size then .ok (⟨g[x], depth + 1⟩, s') else readFrom gs (depth + 1) (x - g.size) s'

def read (c : Code) (s : Source) : Except Halt (Codeword × Source) := readFrom c 0 0 s

theorem size_readFrom {c : Code} {depth offset : Nat} {s t : Source} {w : Codeword}
    (h : readFrom c depth offset s = .ok (w, t)) : t.size < s.size := by
  induction c generalizing depth offset s with
  | nil => cases h
  | cons g gs ih =>
    unfold readFrom at h
    split at h
    · cases h
    · rename_i hn
      have := Source.size_next? hn
      simp only at h
      split at h
      · cases h
        omega
      · have := ih h
        omega

theorem size_read {c : Code} {s t : Source} {w : Codeword} (h : c.read s = .ok (w, t)) : t.size < s.size :=
  size_readFrom h

end Code

end IconMaker.Deflate
