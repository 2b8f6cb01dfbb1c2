import IconMaker.Toml.Numbers

/-
  IconMaker.Toml.Grammar — keys and values.

  Every reader takes the rest of the text and returns what it read with the rest after it,
  or nothing where the text is not as it should be. `repeated` and `separated` go on as long
  as their item reads something, so they end with the text. Arrays and inline tables nest to
  a fixed depth, and a dotted key has fewer parts than that.
-/

namespace IconMaker.Toml

/-- How deep values nest. -/
def maxDepth : Nat := 79

def skipWhite (s : List Char) : List Char := s.dropWhile isWhite

/-- A line break. -/
def lineBreak? : List Char → Option (List Char)
  | '\n' :: r => some r
  | '\r' :: '\n' :: r => some r
  | _ => none

/-- A comment, if one begins here. -/
def skipComment : List Char → List Char
  | '#' :: r => r.dropWhile isPlain
  | r => r

/-- The end of a line: blanks, perhaps a comment, and a line break or the end of the text. -/
def lineEnd? (s : List Char) : Option (List Char) :=
  match skipComment (skipWhite s) with
  | [] => some []
  | r => lineBreak? r

/-- Past blanks, comments and line breaks, from inside a comment or from outside. -/
def skipGap (inComment : Bool) : List Char → List Char
  | [] => []
  | '\r' :: '\n' :: r => skipGap false r
  | '\n' :: r => skipGap false r
  | c :: r =>
    if inComment then if isPlain c then skipGap true r else c :: r
    else if isWhite c then skipGap false r
    else if c = '#' then skipGap true r
    else c :: r

/-- Items until one fails or reads nothing. -/
def repeated {α : Type} (item : List Char → Option (α × List Char)) (s : List Char) : List α × List Char :=
  match item s with
  | none => ([], s)
  | some (a, r) =>
    if r.length < s.length then
      let x := repeated item r
      (a :: x.1, x.2)
    else ([a], r)
termination_by s.length

/-- Items with `mark` between them; none is fine too. A mark that no item follows is left. -/
def separated {α : Type} (mark : Char) (item : List Char → Option (α × List Char)) (s : List Char) :
    List α × List Char :=
  match item s with
  | none => ([], s)
  | some (a, r) =>
    let x := repeated (fun t => (expect mark t).bind item) r
    (a :: x.1, x.2)

def isBareKey (c : Char) : Bool := c.isAlphanum || c == '_' || c == '-'

def simpleKey? (s : List Char) : Option (Key × List Char) :=
  match s with
  | '"' :: r => (basic r).map fun x => (⟨x.1, markOf s⟩, x.2)
  | '\'' :: r => (literal r).map fun x => (⟨x.1, markOf s⟩, x.2)
  | _ =>
    match s.span isBareKey with
    | ([], _) => none
    | (name, r) => some (⟨name, markOf s⟩, r)

def keyPart? (s : List Char) : Option (Key × List Char) :=
  (simpleKey? (skipWhite s)).map fun x => (x.1, skipWhite x.2)

/-- A dotted key: the parts before the last, the last part, and the rest. -/
def key? (s : List Char) : Option (List Key × Key × List Char) :=
  match separated '.' keyPart? s with
  | (ks, r) =>
    match ks.getLast? with
    | some k => if ks.length ≤ maxDepth then some (ks.dropLast, k, r) else none
    | none => none

/-- Changes the table at the end of a path and says what `act` says of it. Tables that are
    not there yet come to be as `origin`; of an array of tables the last element counts. A
    dotted key enters no table that has a header of its own. -/
def atPath {β : Type} (origin : Origin) (act : Origin → Entries → Option (Entries × β)) :
    List Key → Origin → Entries → Option (Entries × β)
  | [], here, es => act here es
  | k :: ks, _, es =>
    match es.get? k.name with
    | none =>
      (atPath origin act ks origin []).map fun x => (es ++ [(k, .table origin none x.1)], x.2)
    | some (.table o m sub) =>
      if o = .inline ∨ (origin = .dotted ∧ o = .header) then none
      else (atPath origin act ks o sub).map fun x => (es.set k.name (.table o m x.1), x.2)
    | some (.tables els) =>
      match els.getLast? with
      | some (.table o m sub) =>
        (atPath origin act ks o sub).map fun x =>
          (es.set k.name (.tables (els.dropLast ++ [.table o m x.1])), x.2)
      | _ => none
    | some _ => none

/-- Adds one entry under a dotted key. The table that gets it must be the one where the key
    stands, or one that dotted keys have made. -/
def addEntry (path : List Key) (k : Key) (v : Value) (here : Origin) (es : Entries) : Option Entries :=
  let act (o : Origin) (sub : Entries) : Option (Entries × Unit) :=
    if (o = .dotted ↔ path = []) then none
    else if (sub.get? k.name).isSome then none
    else some (sub ++ [(k, v)], ())
  (atPath .dotted act path here es).map (·.1)

/-- The entries between the braces of an inline table, in order. -/
def inlineEntries (pairs : List (List Key × Key × Value)) : Option Entries :=
  pairs.foldlM (fun es p => addEntry p.1 p.2.1 p.2.2 .inline es) []

/-- A key, the sign `=` and a value. -/
def pair? (value : List Char → Option (Value × List Char)) (s : List Char) :
    Option ((List Key × Key × Value) × List Char) := do
  let (path, k, r) ← key? s
  let r ← expect '=' r
  let (v, r) ← value (skipWhite r)
  return ((path, k, v), skipWhite r)

/-- After `[`. -/
def arrayItems? (value : List Char → Option (Value × List Char)) (s : List Char) :
    Option (List Value × List Char) :=
  let item (t : List Char) := (value (skipGap false t)).map fun x => (x.1, skipGap false x.2)
  let (vs, r) := separated ',' item s
  let r := match vs, r with
    | _ :: _, ',' :: r' => r'
    | _, r' => r'
  (expect ']' (skipGap false r)).map fun r => (vs, r)

/-- After `{`. -/
def inlineTable? (value : List Char → Option (Value × List Char)) (s : List Char) :
    Option (Entries × List Char) := do
  let (ps, r) := separated ',' (pair? value) s
  let r ← expect '}' (skipWhite r)
  let es ← inlineEntries ps
  return (es, r)

/-- A value in which arrays and inline tables nest at most `depth` deep. -/
def value? : Nat → List Char → Option (Value × List Char)
  | depth, s =>
    let mark := markOf s
    match s with
    | '[' :: r =>
      match depth with
      | 0 => none
      | depth + 1 => (arrayItems? (value? depth) r).map fun x => (.array mark x.1, x.2)
    | '{' :: r =>
      match depth with
      | 0 => none
      | depth + 1 => (inlineTable? (value? depth) r).map fun x => (.table .inline (some mark) x.1, x.2)
    | '"' :: _ => (string? s).map fun x => (.scalar mark (.string x.1), x.2)
    | '\'' :: _ => (string? s).map fun x => (.scalar mark (.string x.1), x.2)
    | _ => (plainScalar? s).map fun x => (.scalar mark x.1, x.2)

end IconMaker.Toml
