import IconMaker.Toml.Value

/-
  IconMaker.Toml.Strings — the four spellings of a string.

  Basic strings (one or several lines, with escapes) and literal strings (one or several
  lines, without). Every reader takes the text after the opening quotes and returns the
  content and the rest after the closing quotes. A line break right after the opening quotes
  of a several-line string does not count, and every line break in one is a line feed.
-/

namespace IconMaker.Toml

def isWhite (c : Char) : Bool := c == ' ' || c == '\t'

/-- Characters that stand for themselves in a comment and in any string, quotes and
    backslash apart: tab, printable ASCII and everything beyond ASCII. -/
def isPlain (c : Char) : Bool := c == '\t' || (' ' ≤ c && c ≤ '~') || '\x80' ≤ c

def hexValue? (c : Char) : Option Nat :=
  if '0' ≤ c && c ≤ '9' then some (c.toNat - 48)
  else if 'a' ≤ c && c ≤ 'f' then some (c.toNat - 87)
  else if 'A' ≤ c && c ≤ 'F' then some (c.toNat - 55)
  else none

def hexNumber? (ds : List Char) : Option Nat :=
  ds.foldlM (fun n c => (hexValue? c).map (16 * n + ·)) 0

/-- The character with a number; surrogates and numbers beyond Unicode have none. -/
def character? (n : Nat) : Option Char :=
  if h : n.isValidChar then some (Char.ofNatAux n h) else none

def simpleEscape? : Char → Option Char
  | 'b' => some '\x08'
  | 't' => some '\t'
  | 'n' => some '\n'
  | 'f' => some '\x0c'
  | 'r' => some '\r'
  | '"' => some '"'
  | '\\' => some '\\'
  | _ => none

/-- What a character adds to the content of a string. -/
def consContent (c : Char) (r : Option (List Char × List Char)) : Option (List Char × List Char) :=
  r.map fun x => (c :: x.1, x.2)

def consNumbered (ds : List Char) (r : Option (List Char × List Char)) : Option (List Char × List Char) :=
  match (hexNumber? ds).bind character? with
  | some c => consContent c r
  | none => none

/-- After one opening `"`. -/
def basic : List Char → Option (List Char × List Char)
  | [] => none
  | '"' :: r => some ([], r)
  | '\\' :: 'u' :: a :: b :: c :: d :: r => consNumbered [a, b, c, d] (basic r)
  | '\\' :: 'U' :: a :: b :: c :: d :: e :: f :: g :: h :: r =>
    consNumbered [a, b, c, d, e, f, g, h] (basic r)
  | '\\' :: x :: r =>
    match simpleEscape? x with
    | some c => consContent c (basic r)
    | none => none
  | c :: r => if isPlain c && c != '\\' then consContent c (basic r) else none

/-- After one opening `'`. -/
def literal : List Char → Option (List Char × List Char)
  | [] => none
  | '\'' :: r => some ([], r)
  | c :: r => if isPlain c then consContent c (literal r) else none

/-- Three quotes end a several-line string; one or two more before them are content. -/
def closing (q : Char) : List Char → Option (List Char × List Char)
  | a :: b :: c :: r =>
    if a = q ∧ b = q ∧ c = q then none
    else if a = q ∧ b = q then some ([q, q], c :: r)
    else if a = q then some ([q], b :: c :: r)
    else some ([], a :: b :: c :: r)
  | [a, b] =>
    if a = q ∧ b = q then some ([q, q], [])
    else if a = q then some ([q], [b])
    else some ([], [a, b])
  | [a] => if a = q then some ([q], []) else some ([], [a])
  | [] => some ([], [])

def startsLine : List Char → Bool
  | '\n' :: _ => true
  | '\r' :: '\n' :: _ => true
  | _ => false

/-- After three opening `"`. While `joining`, blanks and line breaks do not count: a
    backslash at the end of a line joins it with the text of a later one. -/
def basicLines (joining : Bool) : List Char → Option (List Char × List Char)
  | [] => none
  | '"' :: '"' :: '"' :: r => closing '"' r
  | '\r' :: '\n' :: r =>
    if joining then basicLines true r else consContent '\n' (basicLines false r)
  | '\n' :: r =>
    if joining then basicLines true r else consContent '\n' (basicLines false r)
  | '\\' :: 'u' :: a :: b :: c :: d :: r => consNumbered [a, b, c, d] (basicLines false r)
  | '\\' :: 'U' :: a :: b :: c :: d :: e :: f :: g :: h :: r =>
    consNumbered [a, b, c, d, e, f, g, h] (basicLines false r)
  | '\\' :: x :: r =>
    match simpleEscape? x with
    | some c => consContent c (basicLines false r)
    | none => if startsLine ((x :: r).dropWhile isWhite) then basicLines true (x :: r) else none
  | c :: r =>
    if joining && isWhite c then basicLines true r
    else if isPlain c && c != '\\' then consContent c (basicLines false r)
    else none

/-- After three opening `'`. -/
def literalLines : List Char → Option (List Char × List Char)
  | [] => none
  | '\'' :: '\'' :: '\'' :: r => closing '\'' r
  | '\r' :: '\n' :: r => consContent '\n' (literalLines r)
  | '\n' :: r => consContent '\n' (literalLines r)
  | c :: r => if isPlain c then consContent c (literalLines r) else none

def dropFirstBreak : List Char → List Char
  | '\n' :: r => r
  | '\r' :: '\n' :: r => r
  | r => r

/-- A string in any of the spellings. -/
def string? : List Char → Option (List Char × List Char)
  | '"' :: '"' :: '"' :: r => basicLines false (dropFirstBreak r)
  | '\'' :: '\'' :: '\'' :: r => literalLines (dropFirstBreak r)
  | '"' :: r => basic r
  | '\'' :: r => literal r
  | _ => none

end IconMaker.Toml
