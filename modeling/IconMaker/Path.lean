import IconMaker.Text.Quoted

/-
  IconMaker.Path — paths as byte strings.

  `parts` are the pieces between slashes. `fileName?` is the last part that counts, where
  empty parts and `.` at the end do not count; a path whose last such part is `..`, or that
  has none, has no file name. `directory` is the path of the directory that holds the last
  part, `.` if the path names no directory.
-/

namespace IconMaker

abbrev Path := Bytes

namespace Path

def slash : UInt8 := 0x2f
def dot : UInt8 := 0x2e

/-- The part before the first slash and, after a slash, the parts that follow. -/
def parts : Path → List Bytes
  | [] => [[]]
  | b :: r =>
    if b = slash then [] :: parts r
    else match parts r with
      | p :: ps => (b :: p) :: ps
      | [] => [[b]]

/-- Parts that add nothing at the end of a path. -/
def idle (p : Bytes) : Bool := p == [] || p == [dot]

def isUp (p : Bytes) : Bool := p == [dot, dot]

def fileName? (p : Path) : Option Bytes :=
  match (parts p).reverse.dropWhile idle with
  | [] => none
  | n :: _ => if isUp n then none else some n

/-- The name to show for a path: its file name, or the whole path if it has none. -/
def displayName (p : Path) : List Char := Text.lossy ((fileName? p).getD p)

def isAbsolute : Path → Bool
  | b :: _ => b == slash
  | [] => false

/-- Without the idle parts at the end, but never below the root. -/
def trimEnd (p : Path) : Path :=
  let rec go : List UInt8 → List UInt8
    | [] => []
    | b :: r =>
      if b = slash then if r = [] then [b] else go r
      else if b = dot then
        match r with
        | c :: _ => if c = slash then go r else b :: r
        | [] => [b]
      else b :: r
  (go p.reverse).reverse

/-- The path without its last part that counts: `none` for the root and the empty path. -/
def parent? (p : Path) : Option Path :=
  let q := trimEnd p
  match q with
  | [] => none
  | _ =>
    if q = [slash] then none
    else some (trimEnd ((q.reverse.dropWhile (· ≠ slash)).reverse))

/-- Where a file that is to be moved to `p` has to be made. -/
def directory (p : Path) : Path :=
  match parent? p with
  | some d => if d = [] then [dot] else d
  | none => [dot]

def quoted (p : Path) : String := String.ofList (Text.quotedBytes p)

end Path

end IconMaker
