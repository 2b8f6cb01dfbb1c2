import IconMaker.Bytes

/-
  IconMaker.Deflate.Source — a byte string read bit by bit, least significant bit first.

  `bits` is the view: all bits that are still to come. `next?` takes one, `take?` a number
  of several bits, and `size` counts what is left; `size_next?` and `size_take?` say that
  reading makes it smaller. `feed` adds bytes at the end, `padded` zeros.
-/

namespace IconMaker.Deflate

/-- The bits of a byte in the order in which they are read. -/
def bitsOf (b : UInt8) : List Bool := (List.range 8).map b.toNat.testBit

structure Source where
  /-- What is left of the byte that was begun. -/
  begun : List Bool
  rest : Bytes
  deriving DecidableEq, Repr

namespace Source

def ofBytes (bs : Bytes) : Source := ⟨[], bs⟩

def bits (s : Source) : List Bool := s.begun ++ s.rest.flatMap bitsOf

def size (s : Source) : Nat := s.begun.length + 8 * s.rest.length

def next? (s : Source) : Option (Bool × Source) :=
  match s.begun, s.rest with
  | b :: r, bs => some (b, ⟨r, bs⟩)
  | [], b :: bs => some (b.toNat.testBit 0, ⟨(bitsOf b).drop 1, bs⟩)
  | [], [] => none

theorem size_next? {s t : Source} {b : Bool} (h : s.next? = some (b, t)) : t.size + 1 = s.size := by
  obtain ⟨begun, rest⟩ := s
  cases begun with
  | cons c r =>
    cases h
    simp only [size, List.length_cons]
    omega
  | nil =>
    cases rest with
    | nil => cases h
    | cons c r =>
      cases h
      simp only [size, bitsOf, List.length_drop, List.length_map, List.length_range, List.length_cons,
        List.length_nil]
      omega

/-- The next `n` bits as a number, least significant first. -/
def take? : Nat → Source → Option (Nat × Source)
  | 0, s => some (0, s)
  | n + 1, s =>
    match s.next? with
    | none => none
    | some (b, s') =>
      match take? n s' with
      | none => none
      | some (v, s'') => some (b.toNat + 2 * v, s'')

theorem size_take? {n v : Nat} {s t : Source} (h : take? n s = some (v, t)) : t.size + n = s.size := by
  induction n generalizing s v with
  | zero => cases h; rfl
  | succ n ih =>
    unfold take? at h
    split at h
    · cases h
    · rename_i hn
      split at h
      · cases h
      · rename_i ht
        cases h
        have := ih ht
        have := size_next? hn
        omega

/-- Are there at least `n` bits? -/
def has (n : Nat) (s : Source) : Bool := (s.take? n).isSome

def feed (s : Source) (bs : Bytes) : Source := ⟨s.begun, s.rest ++ bs⟩

/-- With zeros behind the end, so that there are bits for two codewords. -/
def padded (s : Source) : Source :=
  match s.rest with
  | _ :: _ :: _ :: _ :: _ => s
  | _ => s.feed [0, 0, 0, 0]

end Source

end IconMaker.Deflate
