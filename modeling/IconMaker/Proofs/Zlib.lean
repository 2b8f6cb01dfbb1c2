import IconMaker.Proofs.Deflate.Inflating
import IconMaker.Zlib

/-
  IconMaker.Proofs.Zlib — a legal zlib stream is expanded, in whatever pieces it comes.

  `Expands` is the format: two bytes of header, a deflate stream, and the sum of the data.
  `expand_of_expands`: if the limit is not below the length of the data, the pieces of a legal
  stream expand to exactly its data; the pieces may be empty and may cut the header, a
  codeword or the sum in two.
-/

namespace IconMaker.Zlib

open Deflate (Rules)

/-- The bytes at the start of a stream: deflate, a window of at most 32 KiB, no dictionary. -/
structure LegalHeader (a b : UInt8) : Prop where
  method : a.toNat % 16 = 8
  window : a.toNat / 16 ≤ 7
  no_dictionary : b.toNat.testBit 5 = false
  check : 31 ∣ 256 * a.toNat + b.toNat

/-- The bytes are those of a zlib stream that stands for the data. -/
def Expands (rules : Rules) (stream data : Bytes) : Prop :=
  ∃ a b body, LegalHeader a b ∧ Deflate.Expands rules body data ∧
    stream = a :: b :: (body ++ Bytes.be 4 (Checksum.adler data))

theorem headerFits_of_legal {a b : UInt8} (h : LegalHeader a b) : headerFits a b = true := by
  have hd := h.no_dictionary
  have hc := Nat.mod_eq_zero_of_dvd h.check
  rw [Nat.testBit_eq_decide_div_mod_eq] at hd
  simp only [decide_eq_false_iff_not] at hd
  simp only [headerFits, Bool.and_eq_true, beq_iff_eq, decide_eq_true_eq]
  exact ⟨⟨⟨h.method, h.window⟩, by omega⟩, by omega⟩

variable {data stream : Bytes} {trailer : List Bool} {more : Bytes} {limit : Nat}

def OnTrack (data : Bytes) (trailer : List Bool) (stream more : Bytes) : Expansion → Prop
  | .opening bs => bs.length < 2 ∧ bs ++ more = stream
  | .body x => Deflate.OnTrack data trailer more x.phase x.source x.out

/-- A stream whose header is legal and whose body is on track from its start. -/
structure Starts (data : Bytes) (trailer : List Bool) (stream : Bytes) : Prop where
  long : 32 ≤ trailer.length
  header : ∃ a b rest, stream = a :: b :: rest ∧ LegalHeader a b ∧
    ∀ r more, r ++ more = rest → Deflate.OnTrack data trailer more .block ((Deflate.Source.ofBytes []).feed r) #[]

theorem starts_of_expands (h : Expands .reader stream data) : ∃ trailer, Starts data trailer stream := by
  obtain ⟨a, b, body, hheader, ⟨parts, padding, hne, hlegal, heq, hpad, hbits⟩, rfl⟩ := h
  have hsum : ((Bytes.be 4 (Checksum.adler data)).flatMap Deflate.bitsOf).length = 32 := by
    rw [Deflate.length_flatMap_bitsOf, Bytes.length_be]
  refine ⟨padding ++ (Bytes.be 4 (Checksum.adler data)).flatMap Deflate.bitsOf, ?_, a, b, _, rfl, hheader, ?_⟩
  · rw [List.length_append, hsum]
    omega
  intro r more hr
  have hlen := congrArg List.length hbits
  rw [Deflate.length_flatMap_bitsOf, List.length_append] at hlen
  refine ⟨0, parts, hne, ⟨hlegal, heq, ?_⟩, Nat.zero_lt_succ 7, ?_⟩
  · rw [List.length_append, List.length_append, hsum]
    omega
  · show (r ++ more).flatMap Deflate.bitsOf = _
    rw [hr, List.flatMap_append, hbits, Deflate.restBits, List.append_assoc]

/-- Whatever is taken for the output is the data. -/
theorem output_of_onTrack {x : Expansion} {out : Array UInt8} (hlimit : data.length ≤ limit)
    (h : OnTrack data trailer stream more x) (ho : x.output? limit = some out) : out.toList = data := by
  cases x with
  | opening => cases ho
  | body x =>
    unfold Expansion.output? at ho
    dsimp only at ho
    split at ho
    · rename_i hdone
      cases ho
      rcases hdone with hsize | hwhole
      · obtain ⟨r, hr⟩ := h.exists_rest
        have := congrArg List.length hr
        rw [List.length_append, Array.length_toList] at this
        rw [← hr, List.length_eq_zero_iff.1 (show r.length = 0 by omega), List.append_nil]
      · unfold Expansion.isWhole at hwhole
        split at hwhole
        · rename_i hphase _
          dsimp only [OnTrack] at h
          rw [hphase] at h
          exact h.1
        · cases hwhole
    · cases ho

/-- After the last piece there is nothing to wait for. -/
theorem output_at_end {x : Deflate.Inflater} (hlong : 32 ≤ trailer.length)
    (h : Deflate.OnTrack data trailer [] x.phase x.source x.out) (hend : limit ≤ x.out.size ∨ x.phase = .ended) :
    (Expansion.body x).output? limit = some x.out := by
  unfold Expansion.output?
  refine if_pos (hend.imp id fun hphase => ?_)
  rw [hphase] at h
  have hbits := congrArg List.length h.2.eq
  have hbegun := h.2.begun
  rw [Deflate.Source.feed_nil] at hbits hbegun
  rw [Deflate.Source.length_bits] at hbits
  unfold Expansion.isWhole
  rw [hphase]
  match hrest : x.source.rest with
  | _ :: _ :: _ :: _ :: _ => rfl
  | [] | [_] | [_, _] | [_, _, _] =>
    rw [hrest] at hbits
    simp only [List.length_cons, List.length_nil] at hbits
    omega

/-- The feed has a result that is on track, and the output once nothing more comes. -/
def Goes (data : Bytes) (trailer : List Bool) (stream more : Bytes) (limit : Nat) (r : Option Expansion) : Prop :=
  ∃ y, r = some y ∧ OnTrack data trailer stream more y ∧ (more = [] → ∃ out, y.output? limit = some out)

theorem goes_advance {phase : Deflate.Phase} {source : Deflate.Source} {out : Array UInt8}
    (hs : Starts data trailer stream) (h : Deflate.OnTrack data trailer more phase source out) :
    Goes data trailer stream more limit ((Deflate.Inflater.advance limit phase source out).map .body) := by
  obtain ⟨x, e, hx, hend⟩ := Deflate.onTrack_advance hs.long h
  refine ⟨.body x, by rw [e]; rfl, hx, fun hm => ?_⟩
  subst hm
  exact ⟨_, output_at_end hs.long hx (hend rfl)⟩

theorem goes_feed {x : Expansion} {piece : Bytes} (hs : Starts data trailer stream)
    (h : OnTrack data trailer stream (piece ++ more) x) : Goes data trailer stream more limit (x.feed limit piece) := by
  cases x with
  | opening bs =>
    obtain ⟨_, heq⟩ := h
    obtain ⟨a, b, rest, rfl, hheader, hstart⟩ := hs.header
    rw [← List.append_assoc] at heq
    unfold Expansion.feed
    dsimp only
    generalize bs ++ piece = bs' at heq ⊢
    match bs', heq with
    | a' :: b' :: r, he =>
      simp only [List.cons_append, List.cons.injEq] at he
      obtain ⟨rfl, rfl, he⟩ := he
      dsimp only
      rw [if_pos (headerFits_of_legal hheader)]
      exact goes_advance hs (hstart r more he)
    | [a'], heq =>
      exact ⟨.opening [a'], rfl, ⟨Nat.one_lt_two, heq⟩, fun hm => by subst hm; simp at heq⟩
    | [], heq => exact ⟨.opening [], rfl, ⟨Nat.two_pos, heq⟩, fun hm => by subst hm; cases heq⟩
  | body x => exact goes_advance hs (Deflate.onTrack_feed h)

theorem expandFrom_onTrack {x : Expansion} {pieces : List Bytes} (hs : Starts data trailer stream)
    (hlimit : data.length ≤ limit) (hne : pieces ≠ []) (h : OnTrack data trailer stream pieces.flatten x) :
    expandFrom limit x pieces = some data.toArray := by
  induction pieces generalizing x with
  | nil => exact absurd rfl hne
  | cons piece pieces ih =>
    rw [List.flatten_cons] at h
    obtain ⟨y, e, hy, hend⟩ := goes_feed hs h
    unfold expandFrom
    rw [e]
    dsimp only
    split
    · rename_i out ho
      rw [← output_of_onTrack hlimit hy ho]
    · rename_i ho
      refine ih (fun hn => ?_) hy
      subst hn
      obtain ⟨out, ho'⟩ := hend rfl
      rw [ho] at ho'
      cases ho'

/-- The pieces of a legal stream expand to its data. -/
theorem expand_of_expands {pieces : List Bytes} (h : Expands .reader pieces.flatten data) (hlimit : data.length ≤ limit) :
    expand limit pieces = some data.toArray := by
  obtain ⟨trailer, hs⟩ := starts_of_expands h
  refine expandFrom_onTrack hs hlimit (fun hn => ?_) ⟨Nat.two_pos, List.nil_append _⟩
  subst hn
  obtain ⟨_, _, _, hcons, _⟩ := hs.header
  cases hcons

/-- A stream whose first block the reader does not take does not expand. -/
theorem expand_refuses (limit : Nat) {preface : Deflate.Preface} {items : List Deflate.Item} {parts : List Deflate.Part} {a b : UInt8}
    {body sum : Bytes} {padding : List Bool} (hheader : LegalHeader a b) (hsum : sum.length = 4)
    (hp : preface.Legal .format) (hno : ¬preface.Legal .reader)
    (hbits : body.flatMap Deflate.bitsOf = Deflate.partBits (.dynamic preface items :: parts) ++ padding) :
    expand limit [a :: b :: (body ++ sum)] = none := by
  have hholds : ((Deflate.Source.ofBytes []).feed (body ++ sum)).Holds
      ((Deflate.Part.dynamic preface items).bits parts.isEmpty
        ++ (Deflate.partBits parts ++ padding ++ sum.flatMap Deflate.bitsOf)) := by
    refine ⟨Nat.zero_lt_succ 7, ?_⟩
    show (body ++ sum).flatMap Deflate.bitsOf = _
    rw [List.flatMap_append, hbits, Deflate.partBits]
    simp only [List.append_assoc]
  have hlong : 32 ≤ (Deflate.partBits parts ++ padding ++ sum.flatMap Deflate.bitsOf).length := by
    rw [List.length_append, Deflate.length_flatMap_bitsOf, hsum]
    omega
  have hread := Deflate.readBlock_refuses hp hno hlong hholds
  have hfeed : Expansion.start.feed limit (a :: b :: (body ++ sum)) = none := by
    show (if headerFits a b then (Deflate.Inflater.start.feed limit (body ++ sum)).map Expansion.body else none) = none
    rw [if_pos (headerFits_of_legal hheader)]
    show (Deflate.Inflater.advance limit .block ((Deflate.Source.ofBytes []).feed (body ++ sum)) #[]).map Expansion.body = none
    rw [Deflate.Inflater.advance]
    split
    · rename_i e
      rw [hread] at e
      cases e
    · rfl
    · rename_i e
      rw [hread] at e
      cases e
  unfold expand expandFrom
  rw [hfeed]

/-! ## Stored streams -/

/-- The stored blocks as parts: they keep to whole bytes, so each is legal behind the others. -/
theorem exists_parts_of_storedBlocks (rules : Rules) (data : Bytes) :
    ∃ parts, parts ≠ [] ∧ (∀ position out, position % 8 = 0 → Deflate.LegalParts rules position out parts) ∧
      (∀ out, Deflate.partOutputs parts out = out ++ data) ∧
      (storedBlocks data).flatMap Deflate.bitsOf = Deflate.partBits parts := by
  -- What is left of the first byte behind the three bits that begin a block.
  let padding := List.replicate 5 false
  fun_induction storedBlocks data with
  | case1 data hle =>
    refine ⟨[.stored padding data], List.cons_ne_nil _ _, fun position out hp => ⟨⟨hle, by decide, ?_⟩, trivial⟩,
      fun out => rfl, ?_⟩
    · show (position + 3 + 5) % 8 = 0
      omega
    · have hfirst : Deflate.bitsOf 1 = true :: false :: false :: padding := rfl
      rw [List.flatMap_cons, hfirst, Deflate.partBits, Deflate.partBits, List.append_nil]
      rfl
  | case2 data hlt ih =>
    obtain ⟨parts, hne, hlegal, hout, hbits⟩ := ih
    have htake : (data.take maxStored).length = maxStored := by
      rw [List.length_take]
      omega
    have hlen : ((Deflate.Part.stored padding (data.take maxStored)).bits false).length = 8 + 8 * (4 + maxStored) := by
      simp only [Deflate.Part.bits, List.length_cons, List.length_append, Deflate.length_flatMap_bitsOf, Bytes.length_le,
        htake, padding, List.length_replicate]
      omega
    have hlast : parts.isEmpty = false := by simpa using hne
    refine ⟨.stored padding (data.take maxStored) :: parts, List.cons_ne_nil _ _, fun position out hp =>
      ⟨⟨Nat.le_of_eq htake, by decide, ?_⟩, hlegal _ _ ?_⟩, fun out => ?_, ?_⟩
    · show (position + 3 + 5) % 8 = 0
      omega
    · rw [hlast, hlen]
      omega
    · show Deflate.partOutputs parts (out ++ data.take maxStored) = _
      rw [hout, List.append_assoc, List.take_append_drop]
    · have hfirst : Deflate.bitsOf 0 = false :: false :: false :: padding := rfl
      rw [Deflate.partBits, hlast, ← hbits, Deflate.Part.bits, htake, List.flatMap_cons, hfirst]
      simp only [List.flatMap_append, List.append_assoc, List.cons_append, maxStored, Nat.sub_self]

theorem legalHeader_stored : LegalHeader 0x78 0x01 := ⟨by decide, by decide, by decide, by decide⟩

theorem expands_stored (rules : Rules) (data : Bytes) : Expands rules (stored data) data := by
  obtain ⟨parts, hne, hlegal, hout, hbits⟩ := exists_parts_of_storedBlocks rules data
  refine ⟨0x78, 0x01, storedBlocks data, legalHeader_stored, ⟨parts, [], hne, hlegal 0 [] rfl, hout [],
    Nat.zero_lt_succ 7, ?_⟩, rfl⟩
  rw [hbits, List.append_nil]

theorem length_storedBlocks (data : Bytes) : (storedBlocks data).length ≤ 2 * data.length + 5 := by
  fun_induction storedBlocks data with
  | case1 data hle =>
    simp only [List.length_cons, List.length_append, Bytes.length_le]
    omega
  | case2 data hlt ih =>
    rw [List.length_drop] at ih
    simp only [List.length_cons, List.length_append, Bytes.length_le, List.length_take]
    unfold maxStored at hlt ih ⊢
    omega

theorem length_stored (data : Bytes) : (stored data).length ≤ 2 * data.length + 11 := by
  have := length_storedBlocks data
  simp only [stored, List.length_cons, List.length_append, Bytes.length_be]
  omega

end IconMaker.Zlib
