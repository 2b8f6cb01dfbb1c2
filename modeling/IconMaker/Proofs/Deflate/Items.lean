import IconMaker.Proofs.Deflate.Stream
import IconMaker.Deflate.Inflate

/-
  IconMaker.Proofs.Deflate.Items — the reader sees every item of a coded block.

  The reader may take two literals at once, depending on how far it can look ahead, and may
  stop for want of bits after any item. `Seen` has all that it can make of what a writer put
  there; `seen_readToken` says that there is nothing else. From it `readTokens_items`: when
  the reader pauses, it stands before some of the items, its output is that of those before
  them, and what it has read is what they take.

    toList_copy   a copy that runs into its own output repeats what it began with.
-/

namespace IconMaker.Deflate

variable {lit dist : Lengths} {s : Source} {more : Bytes} {after : List Bool}

/-! ## Copies -/

theorem repeated_succ (distance n : Nat) (out : Bytes) :
    repeated distance (n + 1) out = repeated distance n out ++ [out.getD (out.length - distance + n % distance) 0] := by
  simp [repeated, List.range_succ]

theorem length_repeated (distance n : Nat) (out : Bytes) : (repeated distance n out).length = n := by
  simp [repeated]

/-- The byte `distance` back is the next one of the repetition. -/
theorem getD_repeated {distance : Nat} {out : Bytes} (n : Nat) (hpos : 0 < distance) (hle : distance ≤ out.length) :
    (out ++ repeated distance n out).getD (out.length + n - distance) 0
      = out.getD (out.length - distance + n % distance) 0 := by
  rw [List.getD_eq_getElem?_getD, List.getD_eq_getElem?_getD]
  by_cases hn : n < distance
  · rw [List.getElem?_append_left (by omega), Nat.mod_eq_of_lt hn, show out.length + n - distance = out.length - distance + n by omega]
  · obtain ⟨m, rfl⟩ := Nat.exists_eq_add_of_le (Nat.le_of_not_lt hn)
    rw [List.getElem?_append_right (by omega), show out.length + (distance + m) - distance - out.length = m by omega,
      Nat.add_mod_left]
    simp [repeated, hpos, List.getD_eq_getElem?_getD]

theorem toList_copy_repeated {distance : Nat} {out : Bytes} (hpos : 0 < distance) (hle : distance ≤ out.length)
    (k n : Nat) (a : Array UInt8) (ha : a.toList = out ++ repeated distance k out) :
    (copy distance n a).toList = out ++ repeated distance (k + n) out := by
  induction n generalizing k a with
  | zero => exact ha
  | succ n ih =>
    have hsize : a.size = out.length + k := by
      rw [← Array.length_toList, ha, List.length_append, length_repeated]
    have hget : a.getD (a.size - distance) 0 = out.getD (out.length - distance + k % distance) 0 := by
      rw [← getD_repeated k hpos hle, ← ha, hsize, Array.getD_eq_getD_getElem?, List.getD_eq_getElem?_getD,
        Array.getElem?_toList]
    rw [copy, ih (k + 1) _ (by rw [Array.toList_push, ha, hget, repeated_succ, List.append_assoc]), Nat.add_right_comm,
      Nat.add_assoc]

theorem toList_copy {distance : Nat} {out : Array UInt8} (n : Nat) (hpos : 0 < distance) (hle : distance ≤ out.size) :
    (copy distance n out).toList = out.toList ++ repeated distance n out.toList := by
  have := toList_copy_repeated hpos (by rwa [Array.length_toList]) 0 n out (by simp [repeated])
  rwa [Nat.zero_add] at this

theorem distance_pos {d : Choice} (h : d.Legal distanceRanges) : 0 < d.value distanceRanges := by
  have key : ∀ i < distanceRanges.size, 0 < (distanceRanges.getD i ⟨0, 0⟩).first := by decide
  exact Nat.lt_of_lt_of_le (key d.symbol h.1) (Nat.le_add_right _ _)

/-! ## Reading one token -/

theorem finds_readRange {ranges : Array Range} {c : Choice} (hc : c.Legal ranges)
    (h : (s.feed more).Holds (c.bits ranges ++ after)) :
    Finds (readRange ranges c.symbol s) more (c.value ranges) after := by
  obtain ⟨hlt, hx⟩ := hc
  have hr : ranges[c.symbol]? = some (c.range ranges) := by
    simp [Choice.range, hlt]
  unfold readRange
  rw [hr]
  dsimp only
  rcases finds_take? hx h with ⟨e, hm⟩ | ⟨t, e, ht⟩
  · rw [e]
    exact finds_exhausted hm
  · rw [e]
    exact finds_ok ht

theorem finds_readCopy {l d : Choice} (hd : dist.Fits) (hl : l.Legal lengthRanges) (hd' : d.Legal distanceRanges)
    (hs : dist.lengthOf d.symbol ≠ 0)
    (h : (s.feed more).Holds (l.bits lengthRanges ++ (dist.codeword d.symbol ++ (d.bits distanceRanges ++ after)))) :
    Finds (readCopy (.ofLengths dist) (257 + l.symbol) s) more
      (.copy (l.value lengthRanges) (d.value distanceRanges)) after := by
  unfold readCopy
  rw [Nat.add_sub_cancel_left]
  rcases finds_readRange hl h with ⟨e, hm⟩ | ⟨t, e, ht⟩
  · rw [e]
    exact finds_exhausted hm
  rw [e]
  dsimp only
  rcases Code.finds_read hd hs ht with ⟨e, hm⟩ | ⟨u, e, hu⟩
  · rw [e]
    exact finds_exhausted hm
  rw [e]
  dsimp only
  rcases finds_readRange hd' hu with ⟨e, hm⟩ | ⟨w, e, hw⟩
  · rw [e]
    exact finds_exhausted hm
  · rw [e]
    exact finds_ok hw

/-- What the reader can make of the items in front of it. -/
inductive Seen (lit dist : Lengths) (more : Bytes) (after : List Bool) :
    List Item → Except Halt (Token × Source) → Prop
  | waits {items : List Item} : more ≠ [] → Seen lit dist more after items (.error .exhausted)
  | ends {t : Source} : (t.feed more).Holds after → Seen lit dist more after [] (.ok (.endOfBlock, t))
  | literal {b : UInt8} {items : List Item} {t : Source} : (t.feed more).Holds (itemBits lit dist items ++ after) →
      Seen lit dist more after (.literal b :: items) (.ok (.literal b, t))
  | pair {b c : UInt8} {items : List Item} {t : Source} : (t.feed more).Holds (itemBits lit dist items ++ after) →
      Seen lit dist more after (.literal b :: .literal c :: items) (.ok (.pair b c, t))
  | copy {l d : Choice} {items : List Item} {t : Source} : (t.feed more).Holds (itemBits lit dist items ++ after) →
      Seen lit dist more after (.copy l d :: items)
        (.ok (.copy (l.value lengthRanges) (d.value distanceRanges), t))

/-- The symbol with which the items begin. -/
def headSymbol : List Item → Nat
  | [] => endOfBlock
  | .literal b :: _ => b.toNat
  | .copy l _ :: _ => 257 + l.symbol

/-- What follows the first symbol. -/
def tailBits (lit dist : Lengths) : List Item → List Bool
  | [] => []
  | .literal _ :: items => itemBits lit dist items
  | .copy l d :: items =>
    l.bits lengthRanges ++ (dist.codeword d.symbol ++ (d.bits distanceRanges ++ itemBits lit dist items))

theorem itemBits_eq (lit dist : Lengths) (items : List Item) :
    itemBits lit dist items = lit.codeword (headSymbol items) ++ tailBits lit dist items := by
  match items with
  | [] => simp [itemBits, headSymbol, tailBits]
  | .literal _ :: _ => simp [itemBits, headSymbol, tailBits, Item.bits]
  | .copy _ _ :: _ => simp [itemBits, headSymbol, tailBits, Item.bits]

/-- A code for the items of a block. -/
structure Covers (lit dist : Lengths) : Prop where
  literals : lit.Fits
  distances : dist.Fits
  endOfBlock : lit.lengthOf endOfBlock ≠ 0

theorem finds_headSymbol {out : Bytes} {items : List Item} (hc : Covers lit dist)
    (hi : LegalItems lit dist out items) (h : (s.feed more).Holds (itemBits lit dist items ++ after)) :
    Finds ((Code.ofLengths lit).read s) more ⟨headSymbol items, lit.lengthOf (headSymbol items)⟩
      (tailBits lit dist items ++ after) := by
  rw [itemBits_eq, List.append_assoc] at h
  refine Code.finds_read hc.literals ?_ h
  match items, hi with
  | [], _ => exact hc.endOfBlock
  | .literal _ :: _, hi => exact hi.1
  | .copy _ _ :: _, hi => exact hi.1.2.2.1

/-- The look at a second literal shows what comes, or nothing. -/
theorem seen_readPartner {out : Bytes} {items : List Item} {b : UInt8} (length : Nat) (hc : Covers lit dist)
    (hi : LegalItems lit dist out items) (h : (s.feed more).Holds (itemBits lit dist items ++ after)) :
    Seen lit dist more after (.literal b :: items) (readPartner (.ofLengths lit) b length s) := by
  unfold readPartner
  rcases finds_headSymbol hc hi h with ⟨e, hm⟩ | ⟨t, e, ht⟩
  · rw [e]
    dsimp only
    split
    · split
      · exact .waits hm
      · exact .literal h
    · exact .literal h
  rw [e]
  dsimp only
  split
  · rename_i hp
    simp only [pairs, Bool.and_eq_true, decide_eq_true_eq] at hp
    match items, hp.1.1, ht with
    | .literal c :: items, _, ht =>
      rw [headSymbol, UInt8.ofNat_toNat]
      exact .pair ht
    | [], hlt, _ => exact absurd hlt (Nat.lt_irrefl 256)
    | .copy l _ :: _, hlt, _ =>
      simp only [headSymbol] at hlt
      omega
  · exact .literal h

theorem seen_readToken {out : Bytes} {items : List Item} (hc : Covers lit dist) (hi : LegalItems lit dist out items)
    (h : (s.feed more).Holds (itemBits lit dist items ++ after)) :
    Seen lit dist more after items (readToken (.ofLengths lit) (.ofLengths dist) s) := by
  unfold readToken
  rcases finds_headSymbol hc hi h with ⟨e, hm⟩ | ⟨t, e, ht⟩
  · rw [e]
    exact .waits hm
  rw [e]
  dsimp only
  match items, hi, ht with
  | [], _, ht => exact .ends ht
  | .literal b :: items, hi, ht =>
    rw [headSymbol, if_pos b.toNat_lt, UInt8.ofNat_toNat]
    exact seen_readPartner _ hc hi.2 ht
  | .copy l d :: items, hi, ht =>
    obtain ⟨⟨hl, hd, _, hs, _⟩, _⟩ := hi
    rw [headSymbol, if_neg (by omega), if_neg (by omega)]
    simp only [tailBits, List.append_assoc] at ht
    rcases finds_readCopy hc.distances hl hd hs ht with ⟨e, hm⟩ | ⟨u, e, hu⟩
    · rw [e]
      exact .waits hm
    · rw [e]
      exact .copy hu

/-! ## Reading on until the block ends -/

/-- Where reading stops: before some of the items, or behind the last. -/
def StoppedAt (lit dist : Lengths) (limit : Nat) (more : Bytes) (after : List Bool) (data : Bytes) :
    Array UInt8 × Stop → Prop
  | (_, .wrong) => False
  | (out, .paused t) =>
    ∃ items, LegalItems lit dist out.toList items ∧ outputs items out.toList = data ∧
      (t.feed more).Holds (itemBits lit dist items ++ after) ∧ (more = [] → limit ≤ out.size)
  | (out, .ended t) => out.toList = data ∧ (t.feed more).Holds after

theorem stoppedAt_limit {limit : Nat} {out : Array UInt8} {items : List Item} (hc : Covers lit dist)
    (hi : LegalItems lit dist out.toList items) (hsize : limit ≤ out.size)
    (h : (s.feed more).Holds (itemBits lit dist items ++ after)) :
    StoppedAt lit dist limit more after (outputs items out.toList) (out, stopAtLimit (.ofLengths lit) s) := by
  have hpaused : StoppedAt lit dist limit more after (outputs items out.toList) (out, .paused s) :=
    ⟨items, hi, rfl, h, fun _ => hsize⟩
  unfold stopAtLimit
  split
  · rcases finds_headSymbol hc hi h with ⟨e, _⟩ | ⟨t, e, ht⟩
    · rw [e]
      exact hpaused
    rw [e]
    dsimp only
    split
    · rename_i hend
      match items, hend, ht with
      | [], _, ht => exact ⟨rfl, ht⟩
      | .literal b :: _, hend, _ =>
        have := b.toNat_lt
        simp only [headSymbol] at hend
        omega
      | .copy l _ :: _, hend, _ =>
        simp only [headSymbol] at hend
        omega
    · exact hpaused
  · exact hpaused

theorem readTokens_items (limit : Nat) {out : Array UInt8} {items : List Item} (hc : Covers lit dist)
    (hi : LegalItems lit dist out.toList items) (h : (s.feed more).Holds (itemBits lit dist items ++ after)) :
    StoppedAt lit dist limit more after (outputs items out.toList)
      (readTokens limit (.ofLengths lit) (.ofLengths dist) out s) := by
  fun_induction readTokens limit (.ofLengths lit) (.ofLengths dist) out s generalizing items with
  | case1 out s _ hr =>
    have hseen := seen_readToken hc hi h
    rw [hr] at hseen
    cases hseen with
    | waits hm => exact ⟨items, hi, rfl, h, fun hn => absurd hn hm⟩
  | case2 out s _ hr =>
    have hseen := seen_readToken hc hi h
    rw [hr] at hseen
    cases hseen
  | case3 out s _ b t hr ih =>
    have hseen := seen_readToken hc hi h
    rw [hr] at hseen
    cases hseen with
    | literal ht =>
      have := ih (by rw [Array.toList_push]; exact hi.2) ht
      rwa [Array.toList_push] at this
  | case4 out s _ b c t hr ih =>
    have hseen := seen_readToken hc hi h
    rw [hr] at hseen
    cases hseen with
    | pair ht =>
      have := ih (by rw [Array.toList_push, Array.toList_push]; exact hi.2.2) ht
      rwa [Array.toList_push, Array.toList_push] at this
  | case5 out s _ length distance t hr hle ih =>
    have hseen := seen_readToken hc hi h
    rw [hr] at hseen
    cases hseen with
    | @copy l d _ _ ht =>
      have hcopy := toList_copy (l.value lengthRanges) (distance_pos hi.1.2.1) hle
      have := ih (by rw [hcopy]; exact hi.2) ht
      rwa [hcopy] at this
  | case6 out s _ length distance t hr hle =>
    have hseen := seen_readToken hc hi h
    rw [hr] at hseen
    cases hseen with
    | copy ht =>
      have := hi.1.2.2.2.2
      rw [Array.length_toList] at this
      exact hle this
  | case7 out s _ t hr =>
    have hseen := seen_readToken hc hi h
    rw [hr] at hseen
    cases hseen with
    | ends ht => exact ⟨rfl, ht⟩
  | case8 out s _ hsize => exact stoppedAt_limit hc hi (Nat.le_of_eq hsize.symm) h
  | case9 out s hlt hne => exact ⟨items, hi, rfl, h, fun _ => by omega⟩

end IconMaker.Deflate
