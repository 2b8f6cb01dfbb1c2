import IconMaker.Toml.Grammar

/-
  IconMaker.Toml.Document — whole documents.

  A document is a run of lines: blank or comment, `key = value`, a table header, a header of
  an array element. The entries after a header are kept apart until the next header and then
  put under the header's key, so a table that was only implied before moves to the place of
  its own header.
-/

namespace IconMaker.Toml

/-- The table that the last header opened. -/
structure Section where
  path : List Key
  key : Key
  isElement : Bool
  mark : Mark
  entries : Entries

structure State where
  root : Entries
  current : Option Section

/-- Puts the open section in its place. -/
def State.close (st : State) : Option Entries :=
  match st.current with
  | none => some st.root
  | some c =>
    let table := Value.table .header (some c.mark) c.entries
    let act (_ : Origin) (es : Entries) : Option (Entries × Unit) :=
      match c.isElement, es.get? c.key.name with
      | true, some (.tables els) => some (es.set c.key.name (.tables (els ++ [table])), ())
      | true, _ => none
      | false, none => some (es ++ [(c.key, table)], ())
      | false, some _ => none
    (atPath .implied act c.path .header st.root).map (·.1)

/-- Opens a table. One that was implied so far keeps its entries. -/
def State.openTable (st : State) (path : List Key) (k : Key) (mark : Mark) : Option State := do
  let root ← st.close
  let act (_ : Origin) (es : Entries) : Option (Entries × Entries) :=
    match es.get? k.name with
    | none => some (es, [])
    | some (.table .implied _ sub) => some (es.erase k.name, sub)
    | some _ => none
  let (root, kept) ← atPath .implied act path .header root
  return ⟨root, some ⟨path, k, false, mark, kept⟩⟩

/-- Opens the next element of an array of tables. -/
def State.openElement (st : State) (path : List Key) (k : Key) (mark : Mark) : Option State := do
  let root ← st.close
  let act (_ : Origin) (es : Entries) : Option (Entries × Unit) :=
    match es.get? k.name with
    | none => some (es ++ [(k, .tables [])], ())
    | some (.tables _) => some (es, ())
    | some _ => none
  let (root, _) ← atPath .implied act path .header root
  return ⟨root, some ⟨path, k, true, mark, []⟩⟩

def State.add (st : State) (path : List Key) (k : Key) (v : Value) : Option State :=
  match st.current with
  | none => (addEntry path k v .header st.root).map fun es => { st with root := es }
  | some c =>
    (addEntry path k v .header c.entries).map fun es => { st with current := some { c with entries := es } }

/-- One line that is not empty, with blanks before it skipped. -/
def line? (st : State) (s : List Char) : Option (State × List Char) :=
  match s with
  | '[' :: '[' :: r => do
    let (path, k, r) ← key? r
    let r ← expect ']' r
    let r ← expect ']' r
    let r ← lineEnd? r
    let st ← st.openElement path k (markOf s)
    return (st, r)
  | '[' :: r => do
    let (path, k, r) ← key? r
    let r ← expect ']' r
    let r ← lineEnd? r
    let st ← st.openTable path k (markOf s)
    return (st, r)
  | '#' :: _ => (lineEnd? s).map (st, ·)
  | '\n' :: r => some (st, r)
  | '\r' :: '\n' :: r => some (st, r)
  | _ => do
    let ((path, k, v), r) ← pair? (value? maxDepth) s
    let r ← lineEnd? r
    let st ← st.add path k v
    return (st, r)

def lines? (st : State) (s : List Char) : Option State :=
  if skipWhite s = [] then some st
  else
    match line? st (skipWhite s) with
    | none => none
    | some (st', r) => if r.length < s.length then lines? st' r else none
termination_by s.length

def byteOrderMark : Char := '\uFEFF'

def dropByteOrderMark : List Char → List Char
  | [] => []
  | c :: r => if c = byteOrderMark then r else c :: r

/-- The top-level entries of a document. -/
def parse (text : List Char) : Option Entries :=
  (lines? ⟨[], none⟩ (dropByteOrderMark text)).bind State.close

end IconMaker.Toml
