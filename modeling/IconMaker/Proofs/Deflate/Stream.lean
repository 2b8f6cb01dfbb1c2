import IconMaker.Proofs.Deflate.Canonical
import IconMaker.Deflate.Token

/-
  IconMaker.Proofs.Deflate.Stream — what a deflate stream is, from the writer's side.

  A stream is a list of parts (blocks): stored bytes, or items under the fixed codes, or items
  under codes that the part itself states in its preface. An item is a literal or a copy of
  earlier output. All choices a writer has are data here, so the bits of a part (`Part.bits`)
  and what it adds to the output (`Part.output`) are functions; `Legal` says which choices
  there are. `Expands` ties the bytes of a stream to the data it stands for.

  `Rules` has the two points at which readers differ from the format: how many distance
  lengths a preface may have, and whether a literal code may be a single codeword.
-/

namespace IconMaker.Deflate

structure Rules where
  maxDistances : Nat
  /-- May the only symbol of a literal code be the end of the block? -/
  loneLiteral : Bool

namespace Rules

/-- What the format allows. -/
def format : Rules := ⟨32, true⟩

/-- What the reader takes. -/
def reader : Rules := ⟨30, false⟩

end Rules

/-! ## Items -/

/-- A value written as a symbol and extra bits. -/
structure Choice where
  symbol : Nat
  extra : Nat
  deriving DecidableEq, Repr

namespace Choice

def range (ranges : Array Range) (c : Choice) : Range := ranges.getD c.symbol ⟨0, 0⟩

def value (ranges : Array Range) (c : Choice) : Nat := (c.range ranges).first + c.extra

def bits (ranges : Array Range) (c : Choice) : List Bool := lowBits (c.range ranges).extra c.extra

def Legal (ranges : Array Range) (c : Choice) : Prop :=
  c.symbol < ranges.size ∧ c.extra < 2 ^ (c.range ranges).extra

instance (ranges : Array Range) (c : Choice) : Decidable (c.Legal ranges) :=
  inferInstanceAs (Decidable (_ ∧ _))

end Choice

/-- The last `distance` bytes over and over, `length` bytes in all. -/
def repeated (distance length : Nat) (out : Bytes) : Bytes :=
  (List.range length).map fun i => out.getD (out.length - distance + i % distance) 0

inductive Item where
  | literal (b : UInt8)
  | copy (length distance : Choice)
  deriving DecidableEq, Repr

namespace Item

def bits (literals distances : Lengths) : Item → List Bool
  | literal b => literals.codeword b.toNat
  | copy l d =>
    literals.codeword (257 + l.symbol) ++ l.bits lengthRanges ++ distances.codeword d.symbol ++ d.bits distanceRanges

def output (out : Bytes) : Item → Bytes
  | literal b => out ++ [b]
  | copy l d => out ++ repeated (d.value distanceRanges) (l.value lengthRanges) out

/-- Its symbols have codewords, and a copy does not reach back beyond the first byte. -/
def Legal (literals distances : Lengths) (out : Bytes) : Item → Prop
  | literal b => literals.lengthOf b.toNat ≠ 0
  | copy l d =>
    l.Legal lengthRanges ∧ d.Legal distanceRanges ∧ literals.lengthOf (257 + l.symbol) ≠ 0 ∧
      distances.lengthOf d.symbol ≠ 0 ∧ d.value distanceRanges ≤ out.length

instance (literals distances : Lengths) (out : Bytes) (i : Item) : Decidable (i.Legal literals distances out) :=
  match i with
  | literal _ => inferInstanceAs (Decidable (_ ≠ _))
  | copy _ _ => inferInstanceAs (Decidable (_ ∧ _))

end Item

def outputs (items : List Item) (out : Bytes) : Bytes := items.foldl Item.output out

def LegalItems (literals distances : Lengths) : Bytes → List Item → Prop
  | _, [] => True
  | out, i :: is => i.Legal literals distances out ∧ LegalItems literals distances (i.output out) is

instance decidableLegalItems (literals distances : Lengths) :
    (out : Bytes) → (is : List Item) → Decidable (LegalItems literals distances out is)
  | _, [] => inferInstanceAs (Decidable True)
  | out, i :: is =>
    have := decidableLegalItems literals distances (i.output out) is
    inferInstanceAs (Decidable (_ ∧ _))

def endOfBlock : Nat := 256

/-- The data of a coded block. -/
def itemBits (literals distances : Lengths) (items : List Item) : List Bool :=
  items.flatMap (Item.bits literals distances) ++ literals.codeword endOfBlock

/-! ## Codes that come with their block -/

/-- Code lengths written with one symbol of the length code. -/
inductive Run where
  | once (length : Nat)
  /-- The length before it again. -/
  | again (n : Nat)
  | zeros (n : Nat)
  | manyZeros (n : Nat)
  deriving DecidableEq, Repr

namespace Run

def symbol : Run → Nat
  | once l => l
  | again _ => 16
  | zeros _ => 17
  | manyZeros _ => 18

def extra : Run → List Bool
  | once _ => []
  | again n => lowBits 2 (n - 3)
  | zeros n => lowBits 3 (n - 3)
  | manyZeros n => lowBits 7 (n - 11)

def bits (code : Lengths) (r : Run) : List Bool := code.codeword r.symbol ++ r.extra

def append (done : Lengths) : Run → Lengths
  | once l => done ++ [l]
  | again n => done ++ List.replicate n (done.getLast?.getD 0)
  | zeros n | manyZeros n => done ++ List.replicate n 0

def Fits (done : Lengths) : Run → Prop
  | once l => l ≤ Lengths.maxLength
  | again n => done ≠ [] ∧ 3 ≤ n ∧ n ≤ 6
  | zeros n => 3 ≤ n ∧ n ≤ 10
  | manyZeros n => 11 ≤ n ∧ n ≤ 138

instance (done : Lengths) (r : Run) : Decidable (r.Fits done) :=
  match r with
  | once _ => inferInstanceAs (Decidable (_ ≤ _))
  | again _ | zeros _ | manyZeros _ => inferInstanceAs (Decidable (_ ∧ _))

end Run

def expandRuns (runs : List Run) (done : Lengths) : Lengths := runs.foldl Run.append done

def LegalRuns (code : Lengths) : Lengths → List Run → Prop
  | _, [] => True
  | done, r :: rs => (code.lengthOf r.symbol ≠ 0 ∧ r.Fits done) ∧ LegalRuns code (r.append done) rs

instance decidableLegalRuns (code : Lengths) : (done : Lengths) → (rs : List Run) → Decidable (LegalRuns code done rs)
  | _, [] => inferInstanceAs (Decidable True)
  | done, r :: rs =>
    have := decidableLegalRuns code (r.append done) rs
    inferInstanceAs (Decidable (_ ∧ _))

/-- The codes of a block and how they are stated in front of it. -/
structure Preface where
  literals : Lengths
  distances : Lengths
  /-- The code under which the lengths of the other two are written. -/
  code : Lengths
  /-- How many lengths of that code are sent. -/
  sent : Nat
  runs : List Run

namespace Preface

def bits (p : Preface) : List Bool :=
  lowBits 5 (p.literals.length - 257) ++ lowBits 5 (p.distances.length - 1) ++ lowBits 4 (p.sent - 4)
    ++ (lengthOrder.take p.sent).flatMap (fun sym => lowBits 3 (p.code.lengthOf sym))
    ++ p.runs.flatMap (Run.bits p.code)

structure Legal (rules : Rules) (p : Preface) : Prop where
  literal_count : 257 ≤ p.literals.length ∧ p.literals.length ≤ 286
  distance_count : 1 ≤ p.distances.length ∧ p.distances.length ≤ rules.maxDistances
  code_count : p.code.length = 19
  code_le : ∀ l ∈ p.code, l ≤ 7
  code_complete : p.code.Complete
  sent : 4 ≤ p.sent ∧ p.sent ≤ 19
  unsent : ∀ sym ∈ lengthOrder.drop p.sent, p.code.lengthOf sym = 0
  runs : LegalRuns p.code [] p.runs
  runs_eq : expandRuns p.runs [] = p.literals ++ p.distances
  literals : p.literals.Complete ∨ rules.loneLiteral = true ∧ p.literals.present = [1]
  endOfBlock : p.literals.lengthOf endOfBlock ≠ 0
  /-- A complete code, or one symbol in one bit, or no symbol. -/
  distances : p.distances.Complete ∨ p.distances.present = [1] ∨ p.distances.present = []

instance (rules : Rules) (p : Preface) : Decidable (p.Legal rules) :=
  decidable_of_iff
    ((257 ≤ p.literals.length ∧ p.literals.length ≤ 286) ∧
      (1 ≤ p.distances.length ∧ p.distances.length ≤ rules.maxDistances) ∧
      p.code.length = 19 ∧ (∀ l ∈ p.code, l ≤ 7) ∧ p.code.Complete ∧ (4 ≤ p.sent ∧ p.sent ≤ 19) ∧
      (∀ sym ∈ lengthOrder.drop p.sent, p.code.lengthOf sym = 0) ∧ LegalRuns p.code [] p.runs ∧
      expandRuns p.runs [] = p.literals ++ p.distances ∧
      (p.literals.Complete ∨ rules.loneLiteral = true ∧ p.literals.present = [1]) ∧
      p.literals.lengthOf Deflate.endOfBlock ≠ 0 ∧
      (p.distances.Complete ∨ p.distances.present = [1] ∨ p.distances.present = []))
    ⟨fun ⟨a, b, c, d, e, f, g, h, i, j, k, l⟩ => ⟨a, b, c, d, e, f, g, h, i, j, k, l⟩,
      fun ⟨a, b, c, d, e, f, g, h, i, j, k, l⟩ => ⟨a, b, c, d, e, f, g, h, i, j, k, l⟩⟩

end Preface

/-! ## Blocks and streams -/

/-- The literal code of blocks that state none. -/
def fixedLiteralLengths : Lengths :=
  (List.range 288).map fun sym => if sym < 144 then 8 else if sym < 256 then 9 else if sym < 280 then 7 else 8

def fixedDistanceLengths : Lengths := (List.range 32).map fun _ => 5

inductive Part where
  /-- Bytes as they are, from the next byte on; `padding` is what is left of the last one. -/
  | stored (padding : List Bool) (data : Bytes)
  | fixed (items : List Item)
  | dynamic (preface : Preface) (items : List Item)

namespace Part

def bits (final : Bool) : Part → List Bool
  | stored padding data =>
    final :: false :: false :: (padding
      ++ (Bytes.le 2 data.length ++ Bytes.le 2 (65535 - data.length) ++ data).flatMap bitsOf)
  | fixed items => final :: true :: false :: itemBits fixedLiteralLengths fixedDistanceLengths items
  | dynamic p items => final :: false :: true :: (p.bits ++ itemBits p.literals p.distances items)

def output (out : Bytes) : Part → Bytes
  | stored _ data => out ++ data
  | fixed items | dynamic _ items => outputs items out

/-- May it stand behind `position` bits that expand to `out`? -/
def Legal (rules : Rules) (position : Nat) (out : Bytes) : Part → Prop
  | stored padding data =>
    data.length ≤ 65535 ∧ padding.length < 8 ∧ (position + 3 + padding.length) % 8 = 0
  | fixed items => LegalItems fixedLiteralLengths fixedDistanceLengths out items
  | dynamic p items => p.Legal rules ∧ LegalItems p.literals p.distances out items

instance (rules : Rules) (position : Nat) (out : Bytes) (p : Part) : Decidable (p.Legal rules position out) :=
  match p with
  | stored .. => inferInstanceAs (Decidable (_ ∧ _))
  | fixed items => inferInstanceAs (Decidable (LegalItems _ _ out items))
  | dynamic .. => inferInstanceAs (Decidable (_ ∧ _))

end Part

/-- The parts one after another, the last one marked as such. -/
def partBits : List Part → List Bool
  | [] => []
  | p :: ps => p.bits ps.isEmpty ++ partBits ps

def partOutputs (parts : List Part) (out : Bytes) : Bytes := parts.foldl Part.output out

def LegalParts (rules : Rules) : Nat → Bytes → List Part → Prop
  | _, _, [] => True
  | position, out, p :: ps =>
    p.Legal rules position out ∧ LegalParts rules (position + (p.bits ps.isEmpty).length) (p.output out) ps

instance decidableLegalParts (rules : Rules) :
    (position : Nat) → (out : Bytes) → (ps : List Part) → Decidable (LegalParts rules position out ps)
  | _, _, [] => inferInstanceAs (Decidable True)
  | position, out, p :: ps =>
    have := decidableLegalParts rules (position + (p.bits ps.isEmpty).length) (p.output out) ps
    inferInstanceAs (Decidable (_ ∧ _))

/-- The bytes are those of a stream that stands for the data. -/
def Expands (rules : Rules) (body data : Bytes) : Prop :=
  ∃ parts padding, parts ≠ [] ∧ LegalParts rules 0 [] parts ∧ partOutputs parts [] = data ∧
    padding.length < 8 ∧ body.flatMap bitsOf = partBits parts ++ padding

end IconMaker.Deflate
