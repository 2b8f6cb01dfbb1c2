import Mathlib
import IconMaker.Text.Utf8

/-
  IconMaker.Proofs.Text.Utf8 — a byte string has at most one text, and it is the text's encoding.

  `Encoded` lists the four lengths of a character's bytes with the number that they stand for.
  A reader at the front of a byte string finds a character exactly where its encoding stands
  (`firstPiece_eq_char_iff`), so a byte string has a text exactly if it is the encoding of that
  text (`text?_eq_some_iff`). A byte string that has none is still the bytes of its pieces
  (`bytes_pieces`).
-/

namespace IconMaker.Text

/-! ## Bytes as numbers -/

theorem isContinuation_iff {b : UInt8} : isContinuation b = true ↔ 0x80 ≤ b.toNat ∧ b.toNat ≤ 0xbf := by
  simp [isContinuation, UInt8.le_iff_toNat_le]

theorem secondFits_iff {a b : UInt8} : secondFits a b = true ↔
    0x80 ≤ b.toNat ∧ b.toNat ≤ 0xbf ∧ (a.toNat = 0xe0 → 0xa0 ≤ b.toNat) ∧ (a.toNat = 0xed → b.toNat ≤ 0x9f) ∧
      (a.toNat = 0xf0 → 0x90 ≤ b.toNat) ∧ (a.toNat = 0xf4 → b.toNat ≤ 0x8f) := by
  have he (n : UInt8) : (a == n) = true ↔ a.toNat = n.toNat := by
    rw [beq_iff_eq, UInt8.toNat_inj]
  unfold secondFits
  simp only [he, UInt8.le_iff_toNat_le]
  simp only [UInt8.reduceToNat]
  split_ifs <;> simp only [Bool.and_eq_true, decide_eq_true_eq, isContinuation_iff] <;> omega

/-! ## The four lengths -/

/-- The bytes of a character in the four lengths, and the number that they stand for. -/
inductive Encoded : Bytes → Nat → Prop
  | one {a : UInt8} : a.toNat < 0x80 → Encoded [a] a.toNat
  | two {a b : UInt8} : 0xc2 ≤ a.toNat → a.toNat ≤ 0xdf → isContinuation b = true →
      Encoded [a, b] (a.toNat % 32 * 64 + low6 b)
  | three {a b c : UInt8} : 0xe0 ≤ a.toNat → a.toNat ≤ 0xef → secondFits a b = true → isContinuation c = true →
      Encoded [a, b, c] ((a.toNat % 16 * 64 + low6 b) * 64 + low6 c)
  | four {a b c d : UInt8} : 0xf0 ≤ a.toNat → a.toNat ≤ 0xf4 → secondFits a b = true → isContinuation c = true →
      isContinuation d = true →
      Encoded [a, b, c, d] (((a.toNat % 8 * 64 + low6 b) * 64 + low6 c) * 64 + low6 d)

theorem firstPiece_of_encoded {a : UInt8} {as r : Bytes} {n : Nat} (h : Encoded (a :: as) n) :
    firstPiece a (as ++ r) = (.char (Char.ofNat n), r) := by
  cases h with
  | one h1 => simp [firstPiece, UInt8.lt_iff_toNat_lt, h1]
  | two h1 h2 hb =>
    have : ¬ a.toNat < 0x80 := by omega
    simp [firstPiece, UInt8.lt_iff_toNat_lt, UInt8.le_iff_toNat_le, this, h1, h2, hb]
  | three h1 h2 hb hc =>
    have h3 : ¬ a.toNat < 0x80 := by omega
    have h4 : ¬ a.toNat ≤ 0xdf := by omega
    simp [firstPiece, UInt8.lt_iff_toNat_lt, UInt8.le_iff_toNat_le, h3, h4, h1, h2, hb, hc]
  | four h1 h2 hb hc hd =>
    have h3 : ¬ a.toNat < 0x80 := by omega
    have h4 : ¬ a.toNat ≤ 0xdf := by omega
    have h5 : ¬ a.toNat ≤ 0xef := by omega
    simp [firstPiece, UInt8.lt_iff_toNat_lt, UInt8.le_iff_toNat_le, h3, h4, h5, h1, h2, hb, hc, hd]

theorem encoded_of_firstPiece {a : UInt8} {as r : Bytes} {c : Char} (h : firstPiece a as = (.char c, r)) :
    ∃ bs n, a :: as = bs ++ r ∧ Encoded bs n ∧ c = Char.ofNat n := by
  unfold firstPiece at h
  simp only [UInt8.lt_iff_toNat_lt, Bool.and_eq_true, decide_eq_true_eq, UInt8.le_iff_toNat_le] at h
  simp only [UInt8.reduceToNat] at h
  split at h
  · cases h
    exact ⟨[a], _, rfl, .one ‹_›, rfl⟩
  split at h
  · rename_i ha
    split at h
    · split at h
      · cases h
        exact ⟨_, _, rfl, .two ha.1 ha.2 ‹_›, rfl⟩
      · cases h
    · cases h
  split at h
  · rename_i ha
    split at h
    · split at h
      · split at h
        · split at h
          · cases h
            exact ⟨_, _, rfl, .three ha.1 ha.2 ‹_› ‹_›, rfl⟩
          · cases h
        · cases h
      · cases h
    · cases h
  split at h
  · rename_i ha
    split at h
    · split at h
      · split at h
        · split at h
          · split at h
            · split at h
              · cases h
                exact ⟨_, _, rfl, .four ha.1 ha.2 ‹_› ‹_› ‹_›, rfl⟩
              · cases h
            · cases h
          · cases h
        · cases h
      · cases h
    · cases h
  · cases h

theorem valid_of_encoded {bs : Bytes} {n : Nat} (h : Encoded bs n) : n.isValidChar := by
  cases h <;> simp only [secondFits_iff, isContinuation_iff, low6, Nat.isValidChar] at * <;> omega

theorem ofNat_eq_iff {n : Nat} {a : UInt8} : UInt8.ofNat n = a ↔ n % 256 = a.toNat := by
  rw [← UInt8.toNat_inj, UInt8.toNat_ofNat']

theorem encode_of_encoded {bs : Bytes} {n : Nat} (h : Encoded bs n) : String.utf8EncodeChar (Char.ofNat n) = bs := by
  have hv : (Char.ofNat n).val.toNat = n := by
    have := Char.toNat_ofNat n
    rwa [if_pos (valid_of_encoded h)] at this
  unfold String.utf8EncodeChar
  simp only [hv]
  clear hv
  cases h with
  | one h1 =>
    rw [if_pos (by omega)]
    simp
  | two h1 h2 hb =>
    rw [isContinuation_iff] at hb
    generalize hn : _ + low6 _ = n
    rw [low6] at hn
    rw [if_neg (by omega), if_pos (by omega)]
    simp only [List.cons.injEq, ofNat_eq_iff, and_true]
    omega
  | three h1 h2 hb hc =>
    rw [secondFits_iff] at hb
    rw [isContinuation_iff] at hc
    generalize hn : _ + low6 _ = n
    rw [low6, low6] at hn
    rw [if_neg (by omega), if_neg (by omega), if_pos (by omega)]
    simp only [List.cons.injEq, ofNat_eq_iff, and_true]
    omega
  | four h1 h2 hb hc hd =>
    rw [secondFits_iff] at hb
    rw [isContinuation_iff] at hc hd
    generalize hn : _ + low6 _ = n
    rw [low6, low6, low6] at hn
    rw [if_neg (by omega), if_neg (by omega), if_neg (by omega)]
    simp only [List.cons.injEq, ofNat_eq_iff, and_true]
    omega

/-- Every character has bytes. -/
theorem encoded_encode (c : Char) : Encoded (String.utf8EncodeChar c) c.toNat := by
  have hv : c.val.toNat < 0xd800 ∨ 0xdfff < c.val.toNat ∧ c.val.toNat < 0x110000 := c.valid
  unfold String.utf8EncodeChar
  simp only []
  change Encoded _ c.val.toNat
  generalize c.val.toNat = n at hv ⊢
  have hb (k : Nat) (hk : k < 256) : (UInt8.ofNat k).toNat = k := by
    rw [UInt8.toNat_ofNat', Nat.mod_eq_of_lt hk]
  split_ifs with h1 h2 h3
  · have := Encoded.one (a := UInt8.ofNat n) (by rw [hb n (by omega)]; omega)
    rwa [hb n (by omega)] at this
  · have := Encoded.two (a := UInt8.ofNat (n / 64 % 32 + 192)) (b := UInt8.ofNat (n % 64 + 128))
      (by rw [hb _ (by omega)]; omega) (by rw [hb _ (by omega)]; omega)
      (by rw [isContinuation_iff, hb _ (by omega)]; omega)
    rw [low6, hb _ (by omega), hb _ (by omega)] at this
    convert this using 1
    omega
  · have := Encoded.three (a := UInt8.ofNat (n / 4096 % 16 + 224)) (b := UInt8.ofNat (n / 64 % 64 + 128))
      (c := UInt8.ofNat (n % 64 + 128))
      (by rw [hb _ (by omega)]; omega) (by rw [hb _ (by omega)]; omega)
      (by rw [secondFits_iff, hb _ (by omega), hb _ (by omega)]; omega)
      (by rw [isContinuation_iff, hb _ (by omega)]; omega)
    rw [low6, low6, hb _ (by omega), hb _ (by omega), hb _ (by omega)] at this
    convert this using 1
    omega
  · have := Encoded.four (a := UInt8.ofNat (n / 262144 % 8 + 240)) (b := UInt8.ofNat (n / 4096 % 64 + 128))
      (c := UInt8.ofNat (n / 64 % 64 + 128)) (d := UInt8.ofNat (n % 64 + 128))
      (by rw [hb _ (by omega)]; omega) (by rw [hb _ (by omega)]; omega)
      (by rw [secondFits_iff, hb _ (by omega), hb _ (by omega)]; omega)
      (by rw [isContinuation_iff, hb _ (by omega)]; omega)
      (by rw [isContinuation_iff, hb _ (by omega)]; omega)
    rw [low6, low6, low6, hb _ (by omega), hb _ (by omega), hb _ (by omega), hb _ (by omega)] at this
    convert this using 1
    omega

theorem exists_encode (c : Char) : ∃ b bs, String.utf8EncodeChar c = b :: bs := by
  refine List.exists_cons_of_ne_nil fun h => ?_
  have he := encoded_encode c
  rw [h] at he
  cases he

/-! ## Reading -/

/-- A character in front is read exactly where its encoding stands. -/
theorem firstPiece_eq_char_iff {b : UInt8} {r r' : Bytes} {c : Char} :
    firstPiece b r = (.char c, r') ↔ b :: r = String.utf8EncodeChar c ++ r' := by
  constructor
  · intro h
    obtain ⟨bs, n, hs, he, rfl⟩ := encoded_of_firstPiece h
    rw [hs, encode_of_encoded he]
  · intro h
    have he := encoded_encode c
    obtain ⟨a, as, ha⟩ := exists_encode c
    rw [ha] at h he
    obtain ⟨rfl, rfl⟩ := List.cons.inj h
    change firstPiece b (as ++ r') = _
    rw [firstPiece_of_encoded he, Char.ofNat_toNat]

theorem text?_cons {b : UInt8} {r r' : Bytes} {c : Char} (h : firstPiece b r = (.char c, r')) :
    text? (b :: r) = (text? r').map (c :: ·) := by
  rw [text?, pieces, h, List.mapM_cons, text?]
  simp only [Piece.char?]
  cases (pieces r').mapM Piece.char? <;> rfl

/-- A byte string has a text exactly if it is the encoding of that text. -/
theorem text?_eq_some_iff {bs : Bytes} {t : List Char} : text? bs = some t ↔ bs = utf8 t := by
  constructor
  · intro h
    fun_induction pieces bs generalizing t with
    | case1 => 
      rw [text?, pieces] at h
      cases h
      rfl
    | case2 b r ih =>
      cases hp : firstPiece b r with
      | mk p r' =>
        cases p with
        | broken bs => simp [text?, pieces, hp, Piece.char?] at h
        | char c =>
          rw [text?_cons hp, Option.map_eq_some_iff] at h
          obtain ⟨t', ht, rfl⟩ := h
          rw [hp] at ih
          rw [firstPiece_eq_char_iff.1 hp, show r' = utf8 t' from ih ht]
          rfl
  · intro h
    subst h
    induction t with
    | nil => simp [text?, utf8, pieces]
    | cons c t ih =>
      obtain ⟨a, as, ha⟩ := exists_encode c
      have hp : firstPiece a (as ++ utf8 t) = (.char c, utf8 t) := by
        rw [firstPiece_eq_char_iff, ha]
        rfl
      have : utf8 (c :: t) = a :: (as ++ utf8 t) := by
        change String.utf8EncodeChar c ++ utf8 t = _
        rw [ha]; rfl
      rw [this, text?_cons hp, ih]
      rfl

theorem text?_utf8 (t : List Char) : text? (utf8 t) = some t := text?_eq_some_iff.2 rfl

theorem utf8_injective : Function.Injective utf8 := by
  intro s t h
  have htext := congrArg text? h
  rwa [text?_utf8, text?_utf8, Option.some.injEq] at htext

/-! ## Nothing is lost -/

/-- What a piece was cut from. -/
def Piece.bytes : Piece → Bytes
  | .char c => String.utf8EncodeChar c
  | .broken bs => bs

theorem bytes_firstPiece (b : UInt8) (r : Bytes) : (firstPiece b r).1.bytes ++ (firstPiece b r).2 = b :: r := by
  cases h : firstPiece b r with
  | mk p r' =>
    cases p with
    | char c => exact (firstPiece_eq_char_iff.1 h).symm
    | broken bs =>
      unfold firstPiece at h
      repeat' split at h
      all_goals cases h
      all_goals rfl

/-- The pieces of a byte string, well-formed or not, are all of it. -/
theorem bytes_pieces (bs : Bytes) : (pieces bs).flatMap Piece.bytes = bs := by
  fun_induction pieces bs with
  | case1 => rfl
  | case2 b r ih => rw [List.flatMap_cons, ih, bytes_firstPiece]

end IconMaker.Text
