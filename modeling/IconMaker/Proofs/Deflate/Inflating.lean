import IconMaker.Proofs.Deflate.Blocks
import IconMaker.Proofs.Deflate.Items

/-
  IconMaker.Proofs.Deflate.Inflating — a legal stream is expanded, in whatever pieces it comes.

  `OnTrack` says of an inflater and of the bytes that have not come yet: what is left to read
  are the bits of parts, or what is left of one, and together they expand to the data. Every
  feed keeps it (`onTrack_feed`), so the stream is never found wrong; when the last piece has
  come there is nothing to wait for, and the inflater has reached its limit or the end.
-/

namespace IconMaker.Deflate

variable {data : Bytes} {trailer : List Bool} {more : Bytes}

/-- Parts that may follow after `position` bits and `out`, and bring it to the data. -/
structure Remain (data : Bytes) (trailer : List Bool) (position : Nat) (out : Bytes) (parts : List Part) : Prop where
  legal : LegalParts .reader position out parts
  eq : partOutputs parts out = data
  /-- With what comes behind them they end at the end of a byte. -/
  whole : (position + (partBits parts ++ trailer).length) % 8 = 0

/-- What is left to read behind the part that is being read. -/
def restBits (trailer : List Bool) (parts : List Part) : List Bool := partBits parts ++ trailer

def OnTrack (data : Bytes) (trailer : List Bool) (more : Bytes) : Phase → Source → Array UInt8 → Prop
  | .ended, s, out => out.toList = data ∧ (s.feed more).Holds trailer
  | .block, s, out =>
    ∃ position parts, parts ≠ [] ∧ Remain data trailer position out.toList parts ∧
      (s.feed more).Holds (restBits trailer parts)
  | .stored final left, s, out =>
    ∃ position bytes parts, final = parts.isEmpty ∧ left = bytes.length ∧ s.begun = [] ∧
      Remain data trailer position (out.toList ++ bytes) parts ∧
      (s.feed more).Holds (bytes.flatMap bitsOf ++ restBits trailer parts)
  | .coded final literals distances, s, out =>
    ∃ position lit dist items parts, final = parts.isEmpty ∧ literals = .ofLengths lit ∧ distances = .ofLengths dist ∧
      Covers lit dist ∧ LegalItems lit dist out.toList items ∧
      Remain data trailer position (outputs items out.toList) parts ∧
      (s.feed more).Holds (itemBits lit dist items ++ restBits trailer parts)

/-! ## The output on the way -/

theorem outputs_append (items : List Item) (out : Bytes) : ∃ r, outputs items out = out ++ r := by
  induction items generalizing out with
  | nil => exact ⟨[], (List.append_nil out).symm⟩
  | cons i is ih =>
    obtain ⟨r, hr⟩ := ih (i.output out)
    cases i <;> exact ⟨_, by rw [outputs, List.foldl_cons, ← outputs, hr, Item.output, List.append_assoc]⟩

theorem partOutputs_append (parts : List Part) (out : Bytes) : ∃ r, partOutputs parts out = out ++ r := by
  induction parts generalizing out with
  | nil => exact ⟨[], (List.append_nil out).symm⟩
  | cons p ps ih =>
    obtain ⟨r, hr⟩ := ih (p.output out)
    have hp : ∃ r, p.output out = out ++ r := by
      cases p with
      | stored _ bytes => exact ⟨bytes, rfl⟩
      | fixed items | dynamic _ items => exact outputs_append items out
    obtain ⟨r', hr'⟩ := hp
    exact ⟨r' ++ r, by rw [partOutputs, List.foldl_cons, ← partOutputs, hr, hr', List.append_assoc]⟩

/-- The output is always the beginning of the data. -/
theorem OnTrack.exists_rest {phase : Phase} {s : Source} {out : Array UInt8} (h : OnTrack data trailer more phase s out) :
    ∃ r, out.toList ++ r = data := by
  cases phase with
  | ended => exact ⟨[], by rw [List.append_nil]; exact h.1⟩
  | block =>
    obtain ⟨_, parts, _, hr, _⟩ := h
    obtain ⟨r, hr'⟩ := partOutputs_append parts out.toList
    exact ⟨r, by rw [← hr', hr.eq]⟩
  | stored =>
    obtain ⟨_, bytes, parts, _, _, _, hr, _⟩ := h
    obtain ⟨r, hr'⟩ := partOutputs_append parts (out.toList ++ bytes)
    exact ⟨bytes ++ r, by rw [← List.append_assoc, ← hr', hr.eq]⟩
  | coded =>
    obtain ⟨_, _, _, items, parts, _, _, _, _, _, hr, _⟩ := h
    obtain ⟨r, hr'⟩ := outputs_append items out.toList
    obtain ⟨r', hr''⟩ := partOutputs_append parts (outputs items out.toList)
    exact ⟨r ++ r', by rw [← List.append_assoc, ← hr', ← hr'', hr.eq]⟩

/-! ## From one part to the next -/

theorem onTrack_afterBlock (position : Nat) {parts : List Part} {s : Source} {out : Array UInt8}
    (hr : Remain data trailer position out.toList parts) (h : (s.feed more).Holds (restBits trailer parts)) :
    OnTrack data trailer more (.afterBlock parts.isEmpty) s out := by
  cases parts with
  | nil => exact ⟨hr.eq, h⟩
  | cons p ps => exact ⟨position, p :: ps, List.cons_ne_nil _ _, hr, h⟩

theorem covers_fixed : Covers fixedLiteralLengths fixedDistanceLengths where
  literals := ⟨by decide +kernel, by decide +kernel⟩
  distances := ⟨by decide +kernel, by decide +kernel⟩
  endOfBlock := by decide +kernel

theorem covers_preface {p : Preface} (h : p.Legal .reader) : Covers p.literals p.distances :=
  ⟨h.literals_fit, h.distances_fit, h.endOfBlock⟩

/-- Behind the beginning of a part stands its data, and behind that the other parts. -/
theorem onTrack_ofBlock {position : Nat} {p : Part} {ps : List Part} {s : Source} {out : Array UInt8}
    (hr : Remain data trailer position out.toList (p :: ps))
    (h : (s.feed more).Holds (p.dataBits ++ restBits trailer ps)) :
    OnTrack data trailer more (.ofBlock ps.isEmpty p.block) s out := by
  obtain ⟨⟨hp, hps⟩, heq, hwhole⟩ := hr
  have hr : Remain data trailer (position + (p.bits ps.isEmpty).length) (p.output out.toList) ps := by
    refine ⟨hps, heq, ?_⟩
    rw [partBits, List.append_assoc, List.length_append] at hwhole
    rwa [Nat.add_assoc]
  cases p with
  | stored padding bytes =>
    refine ⟨_, bytes, ps, rfl, rfl, ?_, hr, h⟩
    have hbits := congrArg List.length h.eq
    have hrest := hr.whole
    obtain ⟨_, _, hpad⟩ := hp
    rw [Source.length_bits, Part.dataBits, List.length_append, length_flatMap_bitsOf, restBits] at hbits
    simp only [Part.bits, List.length_cons, List.length_append, length_flatMap_bitsOf] at hrest
    simp only [List.length_append] at hbits
    have hlt := h.begun
    have hzero : (s.feed more).begun.length = 0 := by omega
    exact List.length_eq_zero_iff.1 hzero
  | fixed items =>
    exact ⟨_, _, _, items, ps, rfl, fixedLiterals_eq, fixedDistances_eq, covers_fixed, hp, hr, h⟩
  | dynamic p items => exact ⟨_, _, _, items, ps, rfl, rfl, rfl, covers_preface hp.1, hp.2, hr, h⟩

/-! ## Going on -/

/-- The inflater goes on, stays on track, and does not wait for what will not come. -/
def Advances (data : Bytes) (trailer : List Bool) (more : Bytes) (limit : Nat) (r : Option Inflater) : Prop :=
  ∃ x, r = some x ∧ OnTrack data trailer more x.phase x.source x.out ∧
    (more = [] → limit ≤ x.out.size ∨ x.phase = .ended)

/-- The part of a stored block that is there, or for which there is room. -/
theorem stored_data {bytes d : Bytes} {rest : List Bool} {source : Source} {room : Nat} (hbegun : source.begun = [])
    (h : (source.feed more).Holds (bytes.flatMap bitsOf ++ rest))
    (hd : d = source.rest.take (min bytes.length room)) :
    d ++ bytes.drop d.length = bytes ∧
      ((⟨[], source.rest.drop d.length⟩ : Source).feed more).Holds ((bytes.drop d.length).flatMap bitsOf ++ rest) ∧
      (more = [] → d.length = bytes.length ∨ d.length = room) := by
  obtain ⟨begun, bs⟩ := source
  subst hbegun
  have hbits : (bs ++ more).flatMap bitsOf = bytes.flatMap bitsOf ++ rest := h.eq
  have hwhole := (take_of_flatMap_bitsOf hbits).1
  have hlen : d.length = min (min bytes.length room) bs.length := by rw [hd, List.length_take]
  have htake : bytes.take d.length = d := by
    have hd' : d = bs.take d.length := by rw [hlen, ← List.take_eq_take_min, ← hd]
    rw [← hwhole, List.take_take, Nat.min_eq_left (by omega), List.take_append_of_le_length (by omega), ← hd']
  have hsplit : d ++ bytes.drop d.length = bytes := by
    have := List.take_append_drop d.length bytes
    rwa [htake] at this
  refine ⟨hsplit, ⟨Nat.zero_lt_succ 7, ?_⟩, fun hm => ?_⟩
  · have hbytes : bytes.flatMap bitsOf = d.flatMap bitsOf ++ (bytes.drop d.length).flatMap bitsOf := by
      rw [← List.flatMap_append, hsplit]
    rw [hbytes, List.append_assoc] at hbits
    have := (take_of_flatMap_bitsOf hbits).2
    rwa [List.drop_append_of_le_length (by omega)] at this
  · subst hm
    have := congrArg List.length hwhole
    rw [List.append_nil, List.length_take] at this
    omega

/-- What the reader finds where a block begins. -/
theorem onTrack_readBlock {s : Source} {out : Array UInt8} (hlong : 32 ≤ trailer.length)
    (h : OnTrack data trailer more .block s out) :
    (readBlock s = .error .exhausted ∧ more ≠ []) ∨
      ∃ final b t, readBlock s = .ok ((final, b), t) ∧ OnTrack data trailer more (.ofBlock final b) t out := by
  obtain ⟨position, parts, hne, hr, hbits⟩ := h
  match parts, hne with
  | p :: ps, _ =>
    rw [restBits, partBits, List.append_assoc] at hbits
    have hwhole := hr.whole
    rw [partBits, List.append_assoc] at hwhole
    have hlong : 32 ≤ (partBits ps ++ trailer).length := by rw [List.length_append]; omega
    rcases finds_readBlock hr.legal.1 hwhole hlong hbits with h | ⟨t, e, ht⟩
    · exact Or.inl h
    · exact Or.inr ⟨_, _, t, e, onTrack_ofBlock hr ht⟩

theorem onTrack_advance {limit : Nat} {phase : Phase} {source : Source} {out : Array UInt8}
    (hlong : 32 ≤ trailer.length) (h : OnTrack data trailer more phase source out) :
    Advances data trailer more limit (Inflater.advance limit phase source out) := by
  fun_induction Inflater.advance limit phase source out with
  | case1 source out => exact ⟨_, rfl, h, fun _ => Or.inr rfl⟩
  | case2 source out hr =>
    rcases onTrack_readBlock hlong h with ⟨_, hm⟩ | ⟨_, _, _, e, _⟩
    · exact ⟨_, rfl, h, fun hn => absurd hn hm⟩
    · rw [hr] at e
      cases e
  | case3 source out hr =>
    rcases onTrack_readBlock hlong h with ⟨e, _⟩ | ⟨_, _, _, e, _⟩ <;> rw [hr] at e <;> cases e
  | case4 source out final b source' hr ih =>
    rcases onTrack_readBlock hlong h with ⟨e, _⟩ | ⟨_, _, _, e, ht⟩ <;> rw [hr] at e <;> cases e
    exact ih ht
  | case5 source out final left d source' hd ih =>
    obtain ⟨position, bytes, parts, rfl, rfl, hbegun, hr, hbits⟩ := h
    obtain ⟨hsplit, hrest, _⟩ := stored_data (d := d) hbegun hbits rfl
    rw [hd, List.drop_length] at hsplit hrest
    rw [List.append_nil] at hsplit
    refine ih (onTrack_afterBlock position ?_ ?_)
    · rw [Array.toList_append, hsplit]
      exact hr
    · rw [← hd] at hrest
      exact hrest
  | case6 source out final left d source' hd =>
    obtain ⟨position, bytes, parts, rfl, rfl, hbegun, hr, hbits⟩ := h
    obtain ⟨hsplit, hrest, hend⟩ := stored_data (d := d) hbegun hbits rfl
    refine ⟨_, rfl, ⟨position, bytes.drop d.length, parts, rfl, List.length_drop.symm, rfl, ?_, hrest⟩, fun hm => ?_⟩
    · dsimp only
      rw [Array.toList_append, List.append_assoc, hsplit]
      exact hr
    · have := hend hm
      simp only [Array.size_append, List.size_toArray]
      omega
  | case7 source out final literals distances _ hr =>
    obtain ⟨position, lit, dist, items, parts, rfl, rfl, rfl, hc, hi, hr', hbits⟩ := h
    have hstop := readTokens_items limit hc hi hbits
    rw [hr] at hstop
    exact hstop.elim
  | case8 source out final literals distances out' source' hr =>
    obtain ⟨position, lit, dist, items, parts, rfl, rfl, rfl, hc, hi, hr', hbits⟩ := h
    have hstop := readTokens_items limit hc hi hbits
    rw [hr] at hstop
    obtain ⟨items', hi', heq, hbits', hsize⟩ := hstop
    exact ⟨_, rfl, ⟨position, lit, dist, items', parts, rfl, rfl, rfl, hc, hi', by rwa [heq], hbits'⟩,
      fun hm => Or.inl (hsize hm)⟩
  | case9 source out final literals distances out' source' hr ih =>
    obtain ⟨position, lit, dist, items, parts, rfl, rfl, rfl, hc, hi, hr', hbits⟩ := h
    have hstop := readTokens_items limit hc hi hbits
    rw [hr] at hstop
    exact ih (onTrack_afterBlock position (by rw [hstop.1]; exact hr') hstop.2)

/-- More of what is to come may have come. -/
theorem onTrack_feed {phase : Phase} {s : Source} {out : Array UInt8} {piece : Bytes}
    (h : OnTrack data trailer (piece ++ more) phase s out) : OnTrack data trailer more phase (s.feed piece) out := by
  cases phase <;> simp only [OnTrack, Source.feed_feed] at h ⊢ <;> exact h

end IconMaker.Deflate
