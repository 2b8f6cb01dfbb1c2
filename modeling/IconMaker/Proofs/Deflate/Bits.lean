import IconMaker.Deflate.Block
import IconMaker.Proofs.Bytes

/-
  IconMaker.Proofs.Deflate.Bits — readers of bits that come in pieces.

  `Holds` says which bits a source still has to give. A source that is read before all pieces
  have come has fewer than that: `more` are the bytes still to come. `Finds` is what every
  reader does with such a source: it finds what is written, or it asks for more while there is
  more to come. Never does it find something else because it looked too early.

  `finds_take?` and the lemmas after it say so of the small readers; those of a code and of
  whole blocks are built on them.
-/

namespace IconMaker.Deflate

/-! ## Numbers as bits -/

/-- The low `n` bits of a number, the lowest first. -/
def lowBits (n v : Nat) : List Bool := (List.range n).map v.testBit

/-- The low `n` bits of a number, the lowest last. -/
def highBits (n v : Nat) : List Bool := (lowBits n v).reverse

@[simp] theorem length_lowBits (n v : Nat) : (lowBits n v).length = n := by
  simp [lowBits]

theorem lowBits_succ (n v : Nat) : lowBits (n + 1) v = v.testBit 0 :: lowBits n (v / 2) := by
  simp only [lowBits, List.range_succ_eq_map, List.map_cons, List.map_map, List.cons.injEq, true_and]
  exact List.map_congr_left fun i _ => Nat.testBit_succ v i

theorem highBits_succ (n v : Nat) : highBits (n + 1) v = v.testBit n :: highBits n v := by
  simp [highBits, lowBits, List.range_succ]

@[simp] theorem length_bitsOf (b : UInt8) : (bitsOf b).length = 8 := length_lowBits 8 b.toNat

@[simp] theorem length_flatMap_bitsOf (bs : Bytes) : (bs.flatMap bitsOf).length = 8 * bs.length :=
  length_flatMap_of_length length_bitsOf bs

theorem testBit_toNat_add (v : Nat) : (v.testBit 0).toNat + 2 * (v / 2) = v := by
  rw [Nat.testBit_zero]
  rcases Nat.mod_two_eq_zero_or_one v with h | h <;> simp [h] <;> omega

theorem lowBits_injective {n v w : Nat} (hv : v < 2 ^ n) (hw : w < 2 ^ n) (h : lowBits n v = lowBits n w) :
    v = w := by
  induction n generalizing v w with
  | zero => omega
  | succ n ih =>
    rw [lowBits_succ, lowBits_succ, List.cons.injEq] at h
    have := ih (v := v / 2) (w := w / 2) (by omega) (by omega) h.2
    rw [← testBit_toNat_add v, ← testBit_toNat_add w, h.1, this]

theorem bitsOf_injective {b c : UInt8} (h : bitsOf b = bitsOf c) : b = c :=
  UInt8.toNat_inj.1 (lowBits_injective b.toNat_lt c.toNat_lt h)

/-- Bytes stand out from the bits that begin with theirs. -/
theorem take_of_flatMap_bitsOf {bs d : Bytes} {after : List Bool}
    (h : bs.flatMap bitsOf = d.flatMap bitsOf ++ after) : bs.take d.length = d ∧ (bs.drop d.length).flatMap bitsOf = after := by
  induction d generalizing bs with
  | nil => exact ⟨rfl, h⟩
  | cons x d ih =>
    cases bs with
    | nil =>
      have := congrArg List.length h
      simp only [List.flatMap_cons, List.flatMap_nil, List.length_append, length_bitsOf, List.length_nil] at this
      omega
    | cons b bs =>
      rw [List.flatMap_cons, List.flatMap_cons, List.append_assoc] at h
      obtain ⟨hb, h⟩ := List.append_inj h (by rw [length_bitsOf, length_bitsOf])
      obtain ⟨ht, hd⟩ := ih h
      rw [bitsOf_injective hb]
      exact ⟨by simp [ht], by simpa using hd⟩

/-! ## Sources -/

namespace Source

/-- The bits that are still to come, those of a begun byte being fewer than eight. -/
structure Holds (s : Source) (bits : List Bool) : Prop where
  begun : s.begun.length < 8
  eq : s.bits = bits

theorem feed_nil (s : Source) : s.feed [] = s := by
  simp [feed]

theorem feed_feed (s : Source) (a b : Bytes) : (s.feed a).feed b = s.feed (a ++ b) := by
  simp [feed]

theorem length_bits (s : Source) : s.bits.length = s.begun.length + 8 * s.rest.length := by
  rw [bits, List.length_append, length_flatMap_bitsOf]

end Source

/-- The reader finds `x` and leaves the bits `after`, or asks for more while more is to come. -/
def Finds {α : Type} (r : Except Halt (α × Source)) (more : Bytes) (x : α) (after : List Bool) : Prop :=
  (r = .error .exhausted ∧ more ≠ []) ∨ ∃ t, r = .ok (x, t) ∧ (t.feed more).Holds after

theorem finds_ok {α : Type} {x : α} {t : Source} {more : Bytes} {after : List Bool}
    (h : (t.feed more).Holds after) : Finds (.ok (x, t)) more x after :=
  Or.inr ⟨t, rfl, h⟩

theorem finds_exhausted {α : Type} {x : α} {more : Bytes} {after : List Bool} (h : more ≠ []) :
    Finds (.error .exhausted) more x after :=
  Or.inl ⟨rfl, h⟩

variable {s : Source} {more : Bytes} {after : List Bool}

theorem finds_next? {b : Bool} (h : (s.feed more).Holds (b :: after)) :
    (s.next? = none ∧ more ≠ []) ∨ ∃ t, s.next? = some (b, t) ∧ (t.feed more).Holds after := by
  obtain ⟨begun, rest⟩ := s
  obtain ⟨hlt, hbits⟩ := h
  cases begun with
  | cons c r =>
    simp only [Source.feed, Source.bits, List.cons_append, List.cons.injEq] at hbits
    obtain ⟨rfl, hbits⟩ := hbits
    simp only [Source.feed, List.length_cons] at hlt
    exact Or.inr ⟨⟨r, rest⟩, rfl, by simp only [Source.feed]; omega, hbits⟩
  | nil =>
    cases rest with
    | nil =>
      refine Or.inl ⟨rfl, fun hm => ?_⟩
      subst hm
      cases hbits
    | cons c rest =>
      have hc : bitsOf c = c.toNat.testBit 0 :: (bitsOf c).drop 1 := rfl
      simp only [Source.feed, Source.bits, List.nil_append, List.cons_append, List.flatMap_cons] at hbits
      rw [hc, List.cons_append, List.cons.injEq] at hbits
      obtain ⟨rfl, hbits⟩ := hbits
      refine Or.inr ⟨⟨(bitsOf c).drop 1, rest⟩, rfl, ?_, hbits⟩
      simp [Source.feed, length_bitsOf]

theorem finds_take? {n v : Nat} (hv : v < 2 ^ n) (h : (s.feed more).Holds (lowBits n v ++ after)) :
    (s.take? n = none ∧ more ≠ []) ∨ ∃ t, s.take? n = some (v, t) ∧ (t.feed more).Holds after := by
  induction n generalizing s v with
  | zero =>
    obtain rfl : v = 0 := by omega
    exact Or.inr ⟨s, rfl, h⟩
  | succ n ih =>
    rw [lowBits_succ, List.cons_append] at h
    unfold Source.take?
    rcases finds_next? h with ⟨hn, hm⟩ | ⟨t, hn, ht⟩
    · exact Or.inl ⟨by rw [hn], hm⟩
    · rcases ih (by omega) ht with ⟨hr, hm⟩ | ⟨u, hr, hu⟩
      · exact Or.inl ⟨by rw [hn]; simp only [hr], hm⟩
      · refine Or.inr ⟨u, ?_, hu⟩
        rw [hn]
        simp only [hr, testBit_toNat_add]

/-- Whether there are enough bits depends on their number alone. -/
theorem has_iff (n : Nat) (s : Source) : s.has n = true ↔ n ≤ s.bits.length := by
  induction n generalizing s with
  | zero => simp [Source.has, Source.take?]
  | succ n ih =>
    unfold Source.has Source.take?
    cases hn : s.next? with
    | none =>
      obtain ⟨begun, rest⟩ := s
      cases begun <;> cases rest <;> simp [Source.next?] at hn
      simp [Source.bits]
    | some x =>
      obtain ⟨b, t⟩ := x
      have hs := Source.size_next? hn
      have ht := ih t
      rw [Source.length_bits] at ht ⊢
      simp only [Source.size] at hs
      unfold Source.has at ht
      cases hk : Source.take? n t <;> simp only [hk] at ht ⊢ <;> simp at ht ⊢ <;> omega

/-- Enough bits will have come, if they have not yet. -/
theorem has_or_more {n : Nat} (h : (s.feed more).Holds after) (hn : n ≤ after.length) :
    s.has n = true ∨ s.has n = false ∧ more ≠ [] := by
  cases hs : s.has n with
  | true => exact Or.inl rfl
  | false =>
    refine Or.inr ⟨rfl, fun hm => ?_⟩
    subst hm
    rw [Source.feed_nil] at h
    have := (has_iff n s).2 (by rw [h.eq]; exact hn)
    rw [hs] at this
    cases this

end IconMaker.Deflate
