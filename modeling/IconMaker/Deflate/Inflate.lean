import IconMaker.Deflate.Block
import IconMaker.Deflate.Token

/-
  IconMaker.Deflate.Inflate — expansion of a deflate stream that comes in pieces.

  `Inflater.feed` adds a piece and goes on as far as the bits and a limit on the output
  allow, or finds that the stream is wrong. What lies beyond the limit is not written, but
  the end of a block right at the limit is taken and blocks after it are looked at until one
  has data.
-/

namespace IconMaker.Deflate

/-- Copies `n` bytes from `distance` back; a copy may run into its own output. -/
def copy (distance : Nat) : Nat → Array UInt8 → Array UInt8
  | 0, out => out
  | n + 1, out => copy distance n (out.push (out.getD (out.size - distance) 0))

/-- How reading the data of a coded block came to a stop. -/
inductive Stop where
  | wrong
  /-- More bits are needed, or there is no room left. -/
  | paused (s : Source)
  | ended (s : Source)
  deriving DecidableEq, Repr

/-- The bits that have to be there for the end of a block to be seen at the limit. -/
def endBits : Nat := 15

/-- At the limit: only the end of the block is taken. -/
def stopAtLimit (literals : Code) (s : Source) : Stop :=
  if s.has endBits then
    match literals.read s with
    | .ok (w, s') => if w.symbol = 256 then .ended s' else .paused s
    | .error _ => .paused s
  else .paused s

/-- The data of a coded block. The last token may write beyond the limit. -/
def readTokens (limit : Nat) (literals distances : Code) (out : Array UInt8) (s : Source) :
    Array UInt8 × Stop :=
  if out.size < limit then
    match _h : readToken literals distances s with
    | .error .exhausted => (out, .paused s)
    | .error .invalid => (out, .wrong)
    | .ok (.literal b, s') => readTokens limit literals distances (out.push b) s'
    | .ok (.pair b c, s') => readTokens limit literals distances ((out.push b).push c) s'
    | .ok (.copy length distance, s') =>
      if distance ≤ out.size then readTokens limit literals distances (copy distance length out) s'
      else (out, .wrong)
    | .ok (.endOfBlock, s') => (out, .ended s')
  else if out.size = limit then (out, stopAtLimit literals s)
  else (out, .paused s)
termination_by s.size
decreasing_by all_goals exact size_readToken ‹_›

theorem size_stopAtLimit {literals : Code} {s t : Source} (h : stopAtLimit literals s = .ended t) :
    t.size < s.size := by
  unfold stopAtLimit at h
  split at h
  · split at h
    · rename_i hw
      have := Code.size_read hw
      split at h <;> cases h
      omega
    · cases h
  · cases h

theorem size_readTokens {limit : Nat} {literals distances : Code} {out out' : Array UInt8} {s t : Source}
    (h : readTokens limit literals distances out s = (out', .ended t)) : t.size < s.size := by
  fun_induction readTokens limit literals distances out s with
  | case3 _ _ _ _ _ hr ih | case4 _ _ _ _ _ _ hr ih | case5 _ _ _ _ _ _ hr _ ih =>
    have := ih h
    have := size_readToken hr
    omega
  | case7 _ _ _ _ hr =>
    cases h
    exact size_readToken hr
  | case8 _ _ _ hl =>
    simp only [Prod.mk.injEq] at h
    exact size_stopAtLimit h.2
  | _ => cases h

/-- What comes next in a stream. -/
inductive Phase where
  | block
  | stored (final : Bool) (left : Nat)
  | coded (final : Bool) (literals distances : Code)
  /-- Nothing: the last block has ended. -/
  | ended
  deriving DecidableEq, Repr

namespace Phase

def ofBlock (final : Bool) : Block → Phase
  | .stored n => stored final n
  | .coded literals distances => coded final literals distances

def afterBlock (final : Bool) : Phase := if final then ended else block

/-- Data comes before what follows it. -/
def rank : Phase → Nat
  | stored .. => 1
  | _ => 0

theorem rank_afterBlock (final : Bool) : (afterBlock final).rank = 0 := by
  cases final <;> rfl

end Phase

structure Inflater where
  phase : Phase
  /-- The bits that have come and are not used yet. -/
  source : Source
  out : Array UInt8
  deriving DecidableEq, Repr

namespace Inflater

def start : Inflater := ⟨.block, .ofBytes [], #[]⟩

/-- Goes on as far as possible; nothing if the stream is wrong. -/
def advance (limit : Nat) (phase : Phase) (source : Source) (out : Array UInt8) : Option Inflater :=
  match phase with
  | .ended => some ⟨.ended, source, out⟩
  | .block =>
    match _h : readBlock source with
    | .error .exhausted => some ⟨.block, source, out⟩
    | .error .invalid => none
    | .ok ((final, b), source') => advance limit (.ofBlock final b) source' out
  | .stored final left =>
    let data := source.rest.take (min left (limit - out.size))
    let source' : Source := ⟨[], source.rest.drop data.length⟩
    if data.length = left then advance limit (.afterBlock final) source' (out ++ data.toArray)
    else some ⟨.stored final (left - data.length), source', out ++ data.toArray⟩
  | .coded final literals distances =>
    match _h : readTokens limit literals distances out source with
    | (_, .wrong) => none
    | (out', .paused source') => some ⟨.coded final literals distances, source', out'⟩
    | (out', .ended source') => advance limit (.afterBlock final) source' out'
termination_by (source.size, phase.rank)
decreasing_by
  · exact Prod.Lex.left _ _ (size_readBlock ‹_›)
  · have : source'.size ≤ source.size := by
      simp only [source', Source.size, List.length_drop, List.length_nil]
      omega
    rcases Nat.lt_or_eq_of_le this with h | h
    · exact Prod.Lex.left _ _ h
    · rw [h]
      refine Prod.Lex.right _ ?_
      rw [Phase.rank_afterBlock]
      exact Nat.zero_lt_one
  · exact Prod.Lex.left _ _ (size_readTokens ‹_›)

def feed (limit : Nat) (x : Inflater) (piece : Bytes) : Option Inflater :=
  advance limit x.phase (x.source.feed piece) x.out

end Inflater

end IconMaker.Deflate
