import IconMaker.Deflate.Code

/-
  IconMaker.Deflate.Token — the symbols of a coded block.

  A token is one literal byte or two, a copy of earlier output, or the end of the block.
  `readToken` takes the next one. Literals with short codewords are taken in pairs, the
  second looked up in the same window of bits as the first; bits behind the end of the
  window count as zeros there, and a pair that such zeros complete is waited for.
-/

namespace IconMaker.Deflate

/-- The bits with which lengths and distances are written: extra bits, first value. -/
structure Range where
  extra : Nat
  first : Nat
  deriving DecidableEq, Repr

/-- Copy lengths of the symbols from 257. -/
def lengthRanges : Array Range :=
  #[⟨0, 3⟩, ⟨0, 4⟩, ⟨0, 5⟩, ⟨0, 6⟩, ⟨0, 7⟩, ⟨0, 8⟩, ⟨0, 9⟩, ⟨0, 10⟩, ⟨1, 11⟩, ⟨1, 13⟩, ⟨1, 15⟩, ⟨1, 17⟩,
    ⟨2, 19⟩, ⟨2, 23⟩, ⟨2, 27⟩, ⟨2, 31⟩, ⟨3, 35⟩, ⟨3, 43⟩, ⟨3, 51⟩, ⟨3, 59⟩, ⟨4, 67⟩, ⟨4, 83⟩, ⟨4, 99⟩,
    ⟨4, 115⟩, ⟨5, 131⟩, ⟨5, 163⟩, ⟨5, 195⟩, ⟨5, 227⟩, ⟨0, 258⟩]

/-- Copy distances of the distance symbols. -/
def distanceRanges : Array Range :=
  #[⟨0, 1⟩, ⟨0, 2⟩, ⟨0, 3⟩, ⟨0, 4⟩, ⟨1, 5⟩, ⟨1, 7⟩, ⟨2, 9⟩, ⟨2, 13⟩, ⟨3, 17⟩, ⟨3, 25⟩, ⟨4, 33⟩, ⟨4, 49⟩,
    ⟨5, 65⟩, ⟨5, 97⟩, ⟨6, 129⟩, ⟨6, 193⟩, ⟨7, 257⟩, ⟨7, 385⟩, ⟨8, 513⟩, ⟨8, 769⟩, ⟨9, 1025⟩, ⟨9, 1537⟩,
    ⟨10, 2049⟩, ⟨10, 3073⟩, ⟨11, 4097⟩, ⟨11, 6145⟩, ⟨12, 8193⟩, ⟨12, 12289⟩, ⟨13, 16385⟩, ⟨13, 24577⟩]

/-- A value of the `i`-th range. -/
def readRange (ranges : Array Range) (i : Nat) (s : Source) : Except Halt (Nat × Source) :=
  match ranges[i]? with
  | none => .error .invalid
  | some r =>
    match s.take? r.extra with
    | none => .error .exhausted
    | some (n, s') => .ok (r.first + n, s')

theorem size_readRange {ranges : Array Range} {i n : Nat} {s t : Source}
    (h : readRange ranges i s = .ok (n, t)) : t.size ≤ s.size := by
  unfold readRange at h
  split at h
  · cases h
  · split at h
    · cases h
    · rename_i ht
      cases h
      have := Source.size_take? ht
      omega

inductive Token where
  | literal (b : UInt8)
  | pair (b c : UInt8)
  | copy (length distance : Nat)
  | endOfBlock
  deriving DecidableEq, Repr

/-- The bits in which a pair of literals is looked up. -/
def window : Nat := 12

/-- Is `w` the second literal of a pair whose first has `first` bits? A codeword of one bit
    never is. -/
def pairs (first : Nat) (w : Code.Codeword) : Bool :=
  w.symbol < 256 && 2 ≤ w.length && first + w.length ≤ window

/-- A literal of `length` bits that has been read, with its partner if it has one. -/
def readPartner (literals : Code) (b : UInt8) (length : Nat) (s : Source) : Except Halt (Token × Source) :=
  match literals.read s with
  | .ok (w, s') => if pairs length w then .ok (.pair b (UInt8.ofNat w.symbol), s') else .ok (.literal b, s)
  | .error .invalid => .ok (.literal b, s)
  | .error .exhausted =>
    match literals.read s.padded with
    | .ok (w, _) => if pairs length w then .error .exhausted else .ok (.literal b, s)
    | .error _ => .ok (.literal b, s)

/-- The copy for a length symbol that has been read. -/
def readCopy (distances : Code) (symbol : Nat) (s : Source) : Except Halt (Token × Source) :=
  match readRange lengthRanges (symbol - 257) s with
  | .error h => .error h
  | .ok (length, s₁) =>
    match distances.read s₁ with
    | .error h => .error h
    | .ok (d, s₂) =>
      match readRange distanceRanges d.symbol s₂ with
      | .error h => .error h
      | .ok (distance, s₃) => .ok (.copy length distance, s₃)

def readToken (literals distances : Code) (s : Source) : Except Halt (Token × Source) :=
  match literals.read s with
  | .error h => .error h
  | .ok (w, s') =>
    if w.symbol < 256 then readPartner literals (UInt8.ofNat w.symbol) w.length s'
    else if w.symbol = 256 then .ok (.endOfBlock, s')
    else readCopy distances w.symbol s'

theorem size_readPartner {literals : Code} {b : UInt8} {length : Nat} {tok : Token} {s t : Source}
    (h : readPartner literals b length s = .ok (tok, t)) : t.size ≤ s.size := by
  unfold readPartner at h
  split at h
  · rename_i hw
    have := Code.size_read hw
    split at h <;> cases h <;> omega
  · cases h
    exact Nat.le_refl _
  · split at h
    · split at h <;> cases h
      exact Nat.le_refl _
    · cases h
      exact Nat.le_refl _

theorem size_readCopy {distances : Code} {symbol : Nat} {tok : Token} {s t : Source}
    (h : readCopy distances symbol s = .ok (tok, t)) : t.size < s.size := by
  unfold readCopy at h
  split at h
  · cases h
  · rename_i h₁
    have := size_readRange h₁
    split at h
    · cases h
    · rename_i h₂
      have := Code.size_read h₂
      split at h
      · cases h
      · rename_i h₃
        have := size_readRange h₃
        cases h
        omega

theorem size_readToken {literals distances : Code} {tok : Token} {s t : Source}
    (h : readToken literals distances s = .ok (tok, t)) : t.size < s.size := by
  unfold readToken at h
  split at h
  · cases h
  · rename_i hw
    have := Code.size_read hw
    split at h
    · have := size_readPartner h
      omega
    · split at h
      · cases h
        omega
      · have := size_readCopy h
        omega

end IconMaker.Deflate
