import IconMaker.Text.Pattern

/-
  IconMaker.Text.PatternNotation — how regular expressions are written.

  A text is first cut into signs, a set in brackets being one sign; the signs are then read
  from the left with a stack of open groups. `Pattern.parse?` accepts sets in brackets, groups,
  `|`, `*`, `+` and `?` (also the last three with a `?` behind, which changes nothing for whole
  texts), the dot, the anchors, and escapes. It knows no counts, flags or names.
-/

namespace IconMaker.Text

/-- One sign of the notation. -/
inductive Sign where
  | pattern (p : Pattern)
  | opening
  | closing
  | bar
  /-- A repetition: what becomes of what it stands behind. -/
  | star
  | plus
  | question
  deriving DecidableEq, Repr

namespace Sign

/-- The set that a letter behind a backslash stands for. -/
def setNamed? : Char → Option CharSet
  | 'd' => some .digit
  | 'D' => some (.complement .digit)
  | 's' => some .blank
  | 'S' => some (.complement .blank)
  | 'w' => some .word
  | 'W' => some (.complement .word)
  | _ => none

/-- The character that one behind a backslash stands for. -/
def escaped? : Char → Option Char
  | 'a' => some '\x07'
  | 'f' => some '\x0c'
  | 'n' => some '\n'
  | 'r' => some '\r'
  | 't' => some '\t'
  | 'v' => some '\x0b'
  | c => if c.toNat < 0x80 ∧ !c.isAlphanum ∧ c ≠ '<' ∧ c ≠ '>' then some c else none

def escapedSet? (c : Char) : Option CharSet := (setNamed? c).or ((escaped? c).map .only)

/-- The inside of a set in brackets up to the bracket that closes it, and what follows. -/
def splitSet : List Char → Option (List Char × List Char)
  | [] => none
  | '\\' :: c :: r => (splitSet r).map fun x => ('\\' :: c :: x.1, x.2)
  | c :: r => if c = ']' then some ([], r) else (splitSet r).map fun x => (c :: x.1, x.2)

/-- The elements of a set in brackets. -/
def members : List Char → Option (List CharSet)
  | [] => some []
  | '\\' :: c :: r => do return (← escapedSet? c) :: (← members r)
  | '[' :: _ => none
  | a :: '-' :: b :: r =>
    if b = '\\' ∨ b = '[' ∨ b < a then none else do return .range a.toNat b.toNat :: (← members r)
  | a :: r => do return .only a :: (← members r)

/-- A set from the inside of its brackets. -/
def setOf (negated : Bool) (inside : List Char) : Option CharSet :=
  (members inside).map fun l => if negated then .complement (.unionOf l) else .unionOf l

/-- Without the character, if the text begins with it. -/
def skip (c : Char) : List Char → List Char
  | [] => []
  | d :: r => if d = c then r else d :: r

/-- A set from behind its opening bracket, and what follows it. A closing bracket at once is a
    member. -/
def readSet (s : List Char) : Option (CharSet × List Char) :=
  let inside := skip '^' s
  match splitSet (skip ']' inside) with
  | none => none
  | some (body, behind) =>
    let all := if inside.head? = some ']' then ']' :: body else body
    (setOf (s.head? = some '^') all).map fun c => (c, behind)

/-- The sign at the start of a text, and what follows it. -/
def read (c : Char) (r : List Char) : Option (Sign × List Char) :=
  match c, r with
  | '[', r => (readSet r).map fun x => (.pattern (.one x.1), x.2)
  | '\\', 'A' :: r => some (.pattern .start, r)
  | '\\', 'z' :: r => some (.pattern .finish, r)
  | '\\', e :: r => (escapedSet? e).map fun s => (.pattern (.one s), r)
  | '\\', [] => none
  | '(', '?' :: ':' :: r => some (.opening, r)
  | '(', '?' :: _ => none
  | '(', r => some (.opening, r)
  | ')', r => some (.closing, r)
  | '|', r => some (.bar, r)
  | '*', '?' :: r => some (.star, r)
  | '*', r => some (.star, r)
  | '+', '?' :: r => some (.plus, r)
  | '+', r => some (.plus, r)
  | '?', '?' :: r => some (.question, r)
  | '?', r => some (.question, r)
  | '\x7b', _ => none
  | '.', r => some (.pattern (.one .any), r)
  | '^', r => some (.pattern .start, r)
  | '$', r => some (.pattern .finish, r)
  | c, r => some (.pattern (.one (.only c)), r)

def readAll : List Char → Option (List Sign)
  | [] => some []
  | c :: r =>
    match read c r with
    | none => none
    | some (s, rest) => if rest.length ≤ r.length then (readAll rest).map (s :: ·) else none
termination_by s => s.length
decreasing_by simp only [List.length_cons]; omega

end Sign

namespace Pattern

/-- An open group: the alternatives before the last bar, and the parts since, newest first. -/
structure Group where
  before : Pattern
  parts : List Pattern
  deriving DecidableEq, Repr

namespace Group

def new : Group := ⟨nothing, []⟩

def pattern (g : Group) : Pattern := g.before.orElse (g.parts.foldl (fun p q => q.andThen p) empty)

def add (g : Group) (p : Pattern) : Group := { g with parts := p :: g.parts }

/-- Changes the last part, if there is one. -/
def change (g : Group) (f : Pattern → Pattern) : Option Group :=
  match g.parts with
  | [] => none
  | p :: ps => some { g with parts := f p :: ps }

end Group

/-- Reads signs with the groups that are open, the innermost first. -/
def ofSigns : Group → List Group → List Sign → Option Pattern
  | g, [], [] => some g.pattern
  | _, _ :: _, [] => none
  | g, gs, .pattern p :: r => ofSigns (g.add p) gs r
  | g, gs, .opening :: r => ofSigns .new (g :: gs) r
  | g, h :: gs, .closing :: r => ofSigns (h.add g.pattern) gs r
  | _, [], .closing :: _ => none
  | g, gs, .bar :: r => ofSigns ⟨g.pattern, []⟩ gs r
  | g, gs, .star :: r => (g.change many).bind fun g' => ofSigns g' gs r
  | g, gs, .plus :: r => (g.change fun p => p.andThen (many p)).bind fun g' => ofSigns g' gs r
  | g, gs, .question :: r => (g.change (either · empty)).bind fun g' => ofSigns g' gs r

def parse? (s : List Char) : Option Pattern := (Sign.readAll s).bind (ofSigns .new [])

end Pattern

end IconMaker.Text
