import IconMaker.Deflate.Code

/-
  IconMaker.Deflate.Block — what stands in front of a block.

  A block is stored, coded under the fixed codes, or coded under codes that come first.
  `readBlock` reads up to where the data begins. Codes must be complete, but for the
  distances also one codeword of length 1 or none at all will do. No block takes less than
  ten bits, and nothing is said about one before these are there.
-/

namespace IconMaker.Deflate

inductive Block where
  | stored (length : Nat)
  | coded (literals distances : Code)
  deriving DecidableEq, Repr

def fixedLiterals : Code :=
  .ofLengths (List.replicate 144 8 ++ List.replicate 112 9 ++ List.replicate 24 7 ++ List.replicate 8 8)

def fixedDistances : Code := .ofLengths (List.replicate 32 5)

/-- The order in which the lengths of the length code are transmitted. -/
def lengthOrder : List Nat := [16, 17, 18, 0, 8, 7, 9, 6, 10, 5, 11, 4, 12, 3, 13, 2, 14, 1, 15]

/-- `n` lengths of three bits each. -/
def readLengths3 : Nat → Source → Except Halt (List Nat × Source)
  | 0, s => .ok ([], s)
  | n + 1, s =>
    match s.take? 3 with
    | none => .error .exhausted
    | some (l, s') =>
      match readLengths3 n s' with
      | .error e => .error e
      | .ok (ls, s'') => .ok (l :: ls, s'')

theorem size_readLengths3 {n : Nat} {ls : List Nat} {s t : Source}
    (h : readLengths3 n s = .ok (ls, t)) : t.size ≤ s.size := by
  induction n generalizing s ls with
  | zero =>
    cases h
    exact Nat.le_refl _
  | succ n ih =>
    unfold readLengths3 at h
    split at h
    · cases h
    · rename_i ht
      have := Source.size_take? ht
      split at h
      · cases h
      · rename_i hr
        cases h
        have := ih hr
        omega

/-- A repeated length: its count is `first` and what the extra bits say. -/
def readCount (l extra first : Nat) (s : Source) : Except Halt ((Nat × Nat) × Source) :=
  match s.take? extra with
  | none => .error .exhausted
  | some (n, s') => .ok ((l, first + n), s')

/-- What a symbol of the length code stands for: a length and how often it comes. -/
def readRepeat (last : Option Nat) (sym : Nat) (s : Source) : Except Halt ((Nat × Nat) × Source) :=
  if sym < 16 then .ok ((sym, 1), s)
  else if sym = 16 then
    match last with
    | none => .error .invalid
    | some l => readCount l 2 3 s
  else if sym = 17 then readCount 0 3 3 s
  else readCount 0 7 11 s

theorem size_readCount {l extra first : Nat} {s t : Source} {x : Nat × Nat}
    (h : readCount l extra first s = .ok (x, t)) : t.size ≤ s.size := by
  unfold readCount at h
  split at h
  · cases h
  · rename_i ht
    cases h
    have := Source.size_take? ht
    omega

theorem size_readRepeat {last : Option Nat} {sym : Nat} {s t : Source} {x : Nat × Nat}
    (h : readRepeat last sym s = .ok (x, t)) : t.size ≤ s.size := by
  unfold readRepeat at h
  split at h
  · cases h
    exact Nat.le_refl _
  · split at h
    · split at h
      · cases h
      · exact size_readCount h
    · split at h <;> exact size_readCount h

/-- The bits that have to be there before a code length is looked at. -/
def lengthBits : Nat := 7

/-- Code lengths under the length code until there are `n`; `done` has them newest first. -/
def readLengths (code : Code) (n : Nat) (done : List Nat) (s : Source) : Except Halt (List Nat × Source) :=
  if done.length ≥ n then .ok (done.reverse, s)
  else if !s.has lengthBits then .error .exhausted
  else
    match _h : code.read s with
    | .error e => .error e
    | .ok (w, s') =>
      match _h' : readRepeat done.head? w.symbol s' with
      | .error e => .error e
      | .ok ((l, k), s'') =>
        if done.length + k ≤ n then readLengths code n (List.replicate k l ++ done) s''
        else .error .invalid
termination_by s.size
decreasing_by exact Nat.lt_of_le_of_lt (size_readRepeat ‹_›) (Code.size_read ‹_›)

theorem size_readLengths {code : Code} {n : Nat} {done ls : List Nat} {s t : Source}
    (h : readLengths code n done s = .ok (ls, t)) : t.size ≤ s.size := by
  fun_induction readLengths code n done s with
  | case1 =>
    cases h
    exact Nat.le_refl _
  | case5 done s _ _ w s' hw l k s'' hr _ ih =>
    have := ih h
    have := size_readRepeat hr
    have := Code.size_read hw
    omega
  | _ => cases h

/-- The code lengths of the pair of codes in front of a block, those of the literals first,
    with the number of these. -/
def readCodeLengths (s : Source) : Except Halt ((Nat × List Nat) × Source) :=
  match s.take? 14 with
  | none => .error .exhausted
  | some (v, s₁) =>
    let literalCount := v % 32 + 257
    let distanceCount := v / 32 % 32 + 1
    if literalCount > 286 ∨ distanceCount > 30 then .error .invalid
    else
      match readLengths3 (v / 1024 + 4) s₁ with
      | .error e => .error e
      | .ok (ls, s₂) =>
        let code := Code.ofLengths ((List.range 19).map fun sym =>
          ((lengthOrder.zip ls).lookup sym).getD 0)
        if code.isComplete then
          match readLengths code (literalCount + distanceCount) [] s₂ with
          | .error e => .error e
          | .ok (all, s₃) => .ok ((literalCount, all), s₃)
        else .error .invalid

theorem size_readCodeLengths {x : Nat × List Nat} {s t : Source}
    (h : readCodeLengths s = .ok (x, t)) : t.size ≤ s.size := by
  unfold readCodeLengths at h
  split at h
  · cases h
  · rename_i ht
    have := Source.size_take? ht
    simp only at h
    split at h
    · cases h
    · split at h
      · cases h
      · rename_i h₃
        have := size_readLengths3 h₃
        split at h
        · split at h
          · cases h
          · rename_i hl
            have := size_readLengths hl
            cases h
            omega
        · cases h

/-- The codes of these lengths, if they will do. -/
def codesOf (literalCount : Nat) (all : List Nat) : Option Block :=
  let literals := Code.ofLengths (all.take literalCount)
  let distances := Code.ofLengths (all.drop literalCount)
  if all.getD 256 0 ≠ 0 ∧ literals.isComplete ∧ (distances.isComplete ∨ distances.isSingle ∨ distances = []) then
    some (.coded literals distances)
  else none

/-- The length of a stored block: twice, the second time inverted, from the next byte on. -/
def readStored (s : Source) : Except Halt (Block × Source) :=
  match s.rest with
  | a :: b :: c :: d :: r =>
    let n := a.toNat + 256 * b.toNat
    if n + (c.toNat + 256 * d.toNat) = 65535 then .ok (.stored n, ⟨[], r⟩) else .error .invalid
  | _ => .error .exhausted

/-- A block of one of the four kinds. -/
def readKind (kind : Nat) (s : Source) : Except Halt (Block × Source) :=
  if kind = 0 then readStored s
  else if kind = 1 then .ok (.coded fixedLiterals fixedDistances, s)
  else if kind = 2 then
    match readCodeLengths s with
    | .error e => .error e
    | .ok ((literalCount, all), s') =>
      match codesOf literalCount all with
      | none => .error .invalid
      | some b => .ok (b, s')
  else .error .invalid

theorem size_readKind {kind : Nat} {b : Block} {s t : Source} (h : readKind kind s = .ok (b, t)) :
    t.size ≤ s.size := by
  unfold readKind at h
  split at h
  · unfold readStored at h
    split at h
    · rename_i hs
      simp only at h
      split at h
      · cases h
        simp only [Source.size, hs, List.length_cons, List.length_nil]
        omega
      · cases h
    · cases h
  · split at h
    · cases h
      exact Nat.le_refl _
    · split at h
      · split at h
        · cases h
        · rename_i hl
          have := size_readCodeLengths hl
          split at h
          · cases h
          · cases h
            omega
      · cases h

/-- The bits that have to be there before a block is looked at. -/
def blockBits : Nat := 10

/-- Whether the block is the last one, and what it is. -/
def readBlock (s : Source) : Except Halt ((Bool × Block) × Source) :=
  if !s.has blockBits then .error .exhausted
  else
    match s.take? 3 with
    | none => .error .exhausted
    | some (v, s') =>
      match readKind (v / 2) s' with
      | .error e => .error e
      | .ok (b, s'') => .ok ((v % 2 == 1, b), s'')

theorem size_readBlock {x : Bool × Block} {s t : Source} (h : readBlock s = .ok (x, t)) :
    t.size < s.size := by
  unfold readBlock at h
  split at h
  · cases h
  · split at h
    · cases h
    · rename_i ht
      have := Source.size_take? ht
      split at h
      · cases h
      · rename_i hk
        have := size_readKind hk
        cases h
        omega

end IconMaker.Deflate
