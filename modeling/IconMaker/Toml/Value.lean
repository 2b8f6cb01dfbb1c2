import IconMaker.Text.Utf8
import IconMaker.Decimal.Binary64

/-
  IconMaker.Toml.Value — what a TOML document holds.

  Places in the text are marks: the number of bytes from there to the end of the text, so
  that a reader who holds only the rest of the text knows its mark. Entries of a table keep
  the order in which their keys came up.
-/

namespace IconMaker.Toml

abbrev Mark := Nat

/-- The mark of the place where `rest` begins. -/
def markOf (rest : List Char) : Mark := Text.byteCount rest

structure Key where
  name : List Char
  mark : Mark
  deriving DecidableEq, Repr

inductive Scalar where
  | string (s : List Char)
  | integer (i : Int)
  | float (d : Binary64)
  | boolean (b : Bool)
  | dateTime
  deriving DecidableEq, Repr

/-- How a table came to be. -/
inductive Origin where
  /-- Between braces. -/
  | inline
  /-- By a header, or the document itself. -/
  | header
  /-- Named on the way to a header's last key. -/
  | implied
  /-- Named on the way to a dotted key's last part. -/
  | dotted
  deriving DecidableEq, Repr

inductive Value where
  | scalar (mark : Mark) (value : Scalar)
  | array (mark : Mark) (items : List Value)
  | table (origin : Origin) (mark : Option Mark) (entries : List (Key × Value))
  /-- An array of tables: every element is a table with its own header. -/
  | tables (elements : List Value)
  deriving Repr

abbrev Entries := List (Key × Value)

def Entries.get? (es : Entries) (name : List Char) : Option Value :=
  (es.find? fun e => e.1.name == name).map (·.2)

def Entries.set (es : Entries) (name : List Char) (v : Value) : Entries :=
  es.map fun e => if e.1.name == name then (e.1, v) else e

def Entries.erase (es : Entries) (name : List Char) : Entries :=
  es.filter fun e => !(e.1.name == name)

/-- Where the value begins, for values that begin at one place. -/
def Value.mark? : Value → Option Mark
  | scalar m _ => some m
  | array m _ => some m
  | table _ m _ => m
  | tables (table _ m _ :: _) => m
  | tables _ => none

end IconMaker.Toml
