import IconMaker.Text.Letter

/-
  IconMaker.Text.Pattern — regular expressions, to be matched by a whole text.

  `Pattern.matchesAll` takes a text character by character: `after` is what has to match the rest
  once a character has been taken, and `admits` says whether nothing more has to come. `orElse`
  and `andThen` keep the patterns small; `admits_orElse` and `admits_andThen` say that they
  are alternatives and sequences all the same.
-/

namespace IconMaker.Text

/-- A set of characters. -/
inductive CharSet where
  | range (first last : Nat)
  | blank
  | word
  | complement (s : CharSet)
  | union (s t : CharSet)
  deriving DecidableEq, Repr

namespace CharSet

def contains (c : Char) : CharSet → Bool
  | range a b => a ≤ c.toNat && c.toNat ≤ b
  | blank => isBlank c
  | word => isLetterOrNumber c || c == '_'
  | complement s => !s.contains c
  | union s t => s.contains c || t.contains c

def only (c : Char) : CharSet := range c.toNat c.toNat

def digit : CharSet := range 0x30 0x39

/-- What a dot stands for: all but the line feed. -/
def any : CharSet := complement (only '\n')

def unionOf : List CharSet → CharSet
  | [] => range 1 0
  | s :: r => union s (unionOf r)

end CharSet

inductive Pattern where
  /-- Matches no text. -/
  | nothing
  /-- Matches the empty text. -/
  | empty
  /-- Matches the empty text at the beginning. -/
  | start
  /-- Matches the empty text at the end. -/
  | finish
  | one (s : CharSet)
  | either (p q : Pattern)
  | both (p q : Pattern)
  | many (p : Pattern)
  deriving DecidableEq, Repr

namespace Pattern

/-- Does the pattern match the empty text here, with nothing before and nothing behind it as
    said? -/
def admits (first last : Bool) : Pattern → Bool
  | nothing => false
  | empty => true
  | start => first
  | finish => last
  | one _ => false
  | either p q => p.admits first last || q.admits first last
  | both p q => p.admits first last && q.admits first last
  | many _ => true

def orElse : Pattern → Pattern → Pattern
  | nothing, q => q
  | p, nothing => p
  | p, q => if p = q then p else either p q

def andThen : Pattern → Pattern → Pattern
  | nothing, _ => nothing
  | _, nothing => nothing
  | empty, q => q
  | p, q => both p q

theorem admits_orElse (first last : Bool) (p q : Pattern) :
    (p.orElse q).admits first last = (p.admits first last || q.admits first last) := by
  unfold orElse
  split
  · simp [admits]
  · simp [admits]
  · split
    · rename_i h
      simp [h]
    · rfl

theorem admits_andThen (first last : Bool) (p q : Pattern) :
    (p.andThen q).admits first last = (p.admits first last && q.admits first last) := by
  unfold andThen
  split <;> simp [admits]

/-- What has to match the rest once `c` has been taken. -/
def after (first : Bool) (c : Char) : Pattern → Pattern
  | nothing | empty | start | finish => nothing
  | one s => if s.contains c then empty else nothing
  | either p q => (p.after first c).orElse (q.after first c)
  | both p q =>
    let left := (p.after first c).andThen q
    if p.admits first false then left.orElse (q.after first c) else left
  | many p => (p.after first c).andThen (many p)

def matchesFrom (first : Bool) (p : Pattern) : List Char → Bool
  | [] => p.admits first true
  | c :: r => matchesFrom false (p.after first c) r

/-- Does the pattern match the whole text? -/
def matchesAll (p : Pattern) (s : List Char) : Bool := matchesFrom true p s

end Pattern

end IconMaker.Text
