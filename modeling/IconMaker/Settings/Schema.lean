import IconMaker.Settings
import IconMaker.Toml.Document

/-
  IconMaker.Settings.Schema — settings from a TOML document.

  The keys are `input`, `output`, `sizes` and `filter`. A document that is no TOML is refused
  as such; otherwise the top-level keys are taken in the order of the document and the first
  one that is unknown or has a wrong value is reported, with the byte offset of that value.
  Where a value has no place of its own (a table that only dotted keys or longer headers
  name), the offset is that of the top-level key.
-/

namespace IconMaker.Settings

open Toml

/-- What stands where something else is wanted. -/
inductive Found where
  | integer (i : Int)
  | float (d : Binary64)
  | boolean (b : Bool)
  | string (s : List Char)
  | sequence
  | map
  deriving DecidableEq, Repr

def Found.text : Found → String
  | integer i => "integer `" ++ (if i < 0 then "-" else "") ++ SizeError.decimal i.natAbs ++ "`"
  | float d => "floating point `" ++ String.ofList d.text ++ "`"
  | boolean b => "boolean `" ++ (if b then "true" else "false") ++ "`"
  | string s => "string " ++ String.ofList (Text.quoted s)
  | sequence => "sequence"
  | map => "map"

def found : Value → Found
  | .scalar _ (.integer i) => .integer i
  | .scalar _ (.float d) => .float d
  | .scalar _ (.boolean b) => .boolean b
  | .scalar _ (.string s) => .string s
  | .scalar _ .dateTime => .map
  | .array .. => .sequence
  | .tables _ => .sequence
  | .table .. => .map

/-- The kinds of value that a filter table's entry may wrongly hold. -/
inductive Kind where
  | string
  | integer
  | float
  | boolean
  | dateTime
  deriving DecidableEq, Repr

def Kind.ofScalar : Scalar → Kind
  | .string _ => string
  | .integer _ => integer
  | .float _ => float
  | .boolean _ => boolean
  | .dateTime => dateTime

def Kind.text : Kind → String
  | string => "string"
  | integer => "integer"
  | float => "float"
  | boolean => "boolean"
  | dateTime => "datetime"

inductive Offence where
  | unknownKey (name : List Char)
  | noPath (found : Found)
  | noSequence (found : Found)
  | badSize (cause : SizeError)
  | noSize
  | unknownFilter (name : List Char)
  | noEntry
  | manyEntries
  | noTable (kind : Kind)
  | tableNotEmpty
  | tablesNotEmpty
  | noFilter
  deriving DecidableEq, Repr

def Offence.message : Offence → String
  | unknownKey k =>
    "unknown field `" ++ String.ofList k ++ "`, expected one of `input`, `output`, `sizes`, `filter`"
  | noPath t => "invalid type: " ++ t.text ++ ", expected path string"
  | noSequence t => "invalid type: " ++ t.text ++ ", expected a sequence"
  | badSize e => e.message
  | noSize => "data did not match any variant of untagged enum IconSizeS"
  | unknownFilter v =>
    "unknown variant `" ++ String.ofList v ++ "`, expected one of "
      ++ ", ".intercalate (Filter.all.map fun f => "`" ++ f.name ++ "`")
  | noEntry => "wanted exactly 1 element, found 0 elements"
  | manyEntries => "wanted exactly 1 element, more than 1 element"
  | noTable k => "expected table, found " ++ k.text
  | tableNotEmpty => "expected empty table"
  | tablesNotEmpty => "expected empty array"
  | noFilter => "wanted string or table"

/-- An offence and its mark, if it has a place of its own. -/
abbrev Refused := Offence × Option Mark

def pathOf (v : Value) : Except Refused Path :=
  match v with
  | .scalar _ (.string s) => .ok (Text.utf8 s)
  | v => .error (.noPath (found v), v.mark?)

def sizeOf (v : Value) : Except Offence Size :=
  let known (r : Except SizeError Size) := r.mapError Offence.badSize
  match v with
  | .scalar _ (.integer i) =>
    if 0 ≤ i ∧ i < 2 ^ 32 then known (Size.ofEdge i.toNat) else .error .noSize
  | .scalar _ (.string s) => known (Size.parse s)
  | _ => .error .noSize

def sizesOf (v : Value) : Except Refused (List Size) :=
  let all (vs : List Value) := (vs.mapM sizeOf).mapError fun e => (e, v.mark?)
  match v with
  | .array _ vs => all vs
  | .tables vs => all vs
  | v => .error (.noSequence (found v), v.mark?)

/-- The value of a filter table's only entry is empty. -/
def checkEmpty (v : Value) : Except Refused Unit :=
  match v with
  | .scalar m s => .error (.noTable (.ofScalar s), some m)
  | .array _ [] | .table _ _ [] | .tables [] => .ok ()
  | .tables _ => .error (.tablesNotEmpty, v.mark?)
  | v => .error (.tableNotEmpty, v.mark?)

def filterNamed (name : List Char) (mark : Option Mark) : Except Refused Filter :=
  match Filter.ofName? name with
  | some f => .ok f
  | none => .error (.unknownFilter name, mark)

def filterOf (v : Value) : Except Refused Filter :=
  match v with
  | .scalar m (.string s) => filterNamed s (some m)
  | .table _ m [] => .error (.noEntry, m)
  | .table _ m [(k, e)] => do
    let f ← filterNamed k.name (some k.mark)
    (checkEmpty e).mapError fun r => (r.1, r.2.or m)
    return f
  | .table _ m _ => .error (.manyEntries, m)
  | v => .error (.noFilter, v.mark?)

/-- Settings with one more entry of the document. -/
def withEntry (s : Settings) (k : Key) (v : Value) : Except Refused Settings :=
  if k.name = "input".toList then (pathOf v).map fun p => { s with input := some p }
  else if k.name = "output".toList then (pathOf v).map fun p => { s with output := some p }
  else if k.name = "sizes".toList then (sizesOf v).map fun l => { s with sizes := some l }
  else if k.name = "filter".toList then (filterOf v).map fun f => { s with filter := some f }
  else .error (.unknownKey k.name, some k.mark)

/-- Settings of the entries; an offence without a place gets that of its key. -/
def ofEntries (es : Entries) : Except (Offence × Mark) Settings :=
  es.foldlM (fun s e => (withEntry s e.1 e.2).mapError fun r => (r.1, r.2.getD e.1.mark)) empty

inductive Fault where
  | notToml
  /-- The byte offset is counted from the start of the text. -/
  | offence (what : Offence) (offset : Nat)
  deriving DecidableEq, Repr

def parse (text : List Char) : Except Fault Settings :=
  match Toml.parse text with
  | none => .error .notToml
  | some es => (ofEntries es).mapError fun r => .offence r.1 (Text.byteCount text - r.2)

end IconMaker.Settings
