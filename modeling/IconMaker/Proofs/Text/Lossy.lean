import IconMaker.Proofs.Text.Utf8

/-
  IconMaker.Proofs.Text.Lossy — what is shown of a byte string that may be damaged.

  `Replaced` says it without a reader, by the encoding of characters alone: where a character
  stands it is shown, and where none stands the longest run of bytes that begins one, or else a
  single byte, is shown as one U+FFFD.
  - `firstPiece_eq_broken_iff`: the reader cuts off exactly such a run.
  - `replaced_iff`: so there is one such text for a byte string, and `lossy` is it.
  - `replaced_utf8_iff`: of an undamaged text it is the text itself.
  - `mem_lossy_iff`: every character but U+FFFD shows exactly if its encoding occurs somewhere,
    since no encoding begins within a run or within another character.
-/

namespace IconMaker.Text

variable {a b : UInt8} {as bs r r' : Bytes} {n : Nat} {c : Char} {s t : List Char}

/-! ## Beginnings of characters -/

/-- The first bytes of a character, or all of them. -/
def IsBeginning (bs : Bytes) : Prop := ∃ c, bs <+: String.utf8EncodeChar c

theorem isBeginning_iff : IsBeginning bs ↔ ∃ as n, Encoded as n ∧ bs <+: as := by
  constructor
  · rintro ⟨c, hc⟩
    exact ⟨_, _, encoded_encode c, hc⟩
  · rintro ⟨as, n, he, hstart⟩
    rw [← encode_of_encoded he] at hstart
    exact ⟨_, hstart⟩

theorem IsBeginning.shorter (h : IsBeginning bs) (ha : as <+: bs) : IsBeginning as := by
  obtain ⟨c, hc⟩ := h
  exact ⟨c, ha.trans hc⟩

theorem Encoded.continues (h : Encoded bs n) : ∀ x ∈ bs.tail, isContinuation x = true := by
  cases h with
  | one => simp
  | two _ _ hb => simpa using hb
  | three _ _ hb hc | four _ _ hb hc =>
    rw [secondFits_iff] at hb
    simp_all [isContinuation_iff]

/-- No character begins with a continuation. -/
theorem Encoded.begins (h : Encoded (b :: bs) n) : isContinuation b = false := by
  rw [Bool.eq_false_iff, Ne, isContinuation_iff]
  cases h with
  | one | two | three | four => omega

/-- Behind the first byte there are continuations only. -/
theorem IsBeginning.continues (h : IsBeginning bs) : ∀ x ∈ bs.tail, isContinuation x = true := by
  obtain ⟨as, n, he, hstart⟩ := isBeginning_iff.1 h
  obtain ⟨r, rfl⟩ := hstart
  intro x hx
  cases bs with
  | nil => cases hx
  | cons b bs => exact he.continues x (List.mem_append_left r hx)

theorem IsBeginning.continuation (h : IsBeginning (bs ++ [b])) (hbs : bs ≠ []) : isContinuation b = true := by
  obtain ⟨a, as, rfl⟩ := List.exists_cons_of_ne_nil hbs
  exact h.continues b (by simp)

/-- Which second byte there may be depends on the first one. -/
theorem IsBeginning.second (h : IsBeginning [a, b]) :
    0xc2 ≤ a.toNat ∧ a.toNat ≤ 0xdf ∧ isContinuation b = true ∨
      0xe0 ≤ a.toNat ∧ a.toNat ≤ 0xf4 ∧ secondFits a b = true := by
  obtain ⟨as, n, he, hstart⟩ := isBeginning_iff.1 h
  cases he with
  | one => simp at hstart
  | two h1 h2 hb =>
    obtain ⟨rfl, rfl⟩ : a = _ ∧ b = _ := by simpa using hstart
    exact Or.inl ⟨h1, h2, hb⟩
  | three h1 h2 hb =>
    obtain ⟨rfl, rfl⟩ : a = _ ∧ b = _ := by simpa using hstart
    exact Or.inr ⟨h1, by omega, hb⟩
  | four h1 h2 hb =>
    obtain ⟨rfl, rfl⟩ : a = _ ∧ b = _ := by simpa using hstart
    exact Or.inr ⟨by omega, h2, hb⟩

theorem isContinuation_first : isContinuation 0x80 = true := by decide

theorem isBeginning_triple {d : UInt8} (h1 : 0xf0 ≤ a.toNat) (h2 : a.toNat ≤ 0xf4) (hb : secondFits a b = true)
    (hd : isContinuation d = true) : IsBeginning [a, b, d] :=
  isBeginning_iff.2 ⟨_, _, .four h1 h2 hb hd isContinuation_first, by simp⟩

theorem isBeginning_pair (h1 : 0xe0 ≤ a.toNat) (h2 : a.toNat ≤ 0xf4) (hb : secondFits a b = true) :
    IsBeginning [a, b] := by
  by_cases h : a.toNat ≤ 0xef
  · exact isBeginning_iff.2 ⟨_, _, .three h1 h hb isContinuation_first, by simp⟩
  · exact (isBeginning_triple (by omega) h2 hb isContinuation_first).shorter (by simp)

/-! ## Runs that begin no character, or do not end it -/

/-- In front of `r`, the longest beginning of a character, or a single byte. -/
structure Longest (bs r : Bytes) : Prop where
  ne_nil : bs ≠ []
  short : IsBeginning bs ∨ bs.length = 1
  longest : ∀ b r', r = b :: r' → ¬ IsBeginning (bs ++ [b])

/-- Such a run where no character stands. -/
structure Damaged (bs r : Bytes) : Prop extends Longest bs r where
  no_char : ∀ c, ¬ String.utf8EncodeChar c <+: bs ++ r

theorem Longest.single (h : ∀ x r', r = x :: r' → ¬ IsBeginning [b, x]) : Longest [b] r :=
  ⟨List.cons_ne_nil _ _, Or.inr rfl, h⟩

theorem Longest.of_beginning (hbegin : IsBeginning bs) (hne : bs ≠ [])
    (h : ∀ x r', r = x :: r' → isContinuation x ≠ true) : Longest bs r :=
  ⟨hne, Or.inl hbegin, fun x r' hr hx => h x r' hr (hx.continuation hne)⟩

theorem Longest.continues (h : Longest bs r) : ∀ x ∈ bs.tail, isContinuation x = true := by
  rcases h.short with hbegin | hone
  · exact hbegin.continues
  · obtain ⟨b, rfl⟩ := List.length_eq_one_iff.1 hone
    simp

theorem Longest.length_le (h : Longest bs r) (h' : Longest as r') (heq : bs ++ r = as ++ r') :
    as.length ≤ bs.length := by
  by_contra hlt
  rw [not_le] at hlt
  have hbegin : IsBeginning as := by
    refine h'.short.resolve_right fun hone => h.ne_nil ?_
    exact List.length_eq_zero_iff.1 (by omega)
  rcases List.append_eq_append_iff.1 heq with ⟨x, rfl, hr⟩ | ⟨x, rfl, -⟩
  · cases x with
    | nil => simp at hlt
    | cons b x => exact h.longest b (x ++ r') hr (hbegin.shorter ⟨x, by simp⟩)
  · simp at hlt

/-- A byte string begins with one run of this kind only. -/
theorem Longest.unique (h : Longest bs r) (h' : Longest as r') (heq : bs ++ r = as ++ r') : bs = as ∧ r = r' :=
  List.append_inj heq (le_antisymm (h'.length_le h heq.symm) (h.length_le h' heq))

theorem Longest.of_two (h1 : a.toNat ≤ 0xdf) (h : ∀ x r', r = x :: r' → isContinuation x ≠ true) : Longest [a] r :=
  .single fun x r' hr hx => by
    rcases hx.second with ⟨-, -, hc⟩ | ⟨h2, -, -⟩
    · exact h x r' hr hc
    · omega

theorem Longest.of_more (h1 : 0xe0 ≤ a.toNat) (h : ∀ x r', r = x :: r' → secondFits a x ≠ true) : Longest [a] r :=
  .single fun x r' hr hx => by
    rcases hx.second with ⟨-, h2, -⟩ | ⟨-, -, hs⟩
    · omega
    · exact h x r' hr hs

/-! What the reader cuts off without finding a character is as long as can be. Which bytes may follow
    depends on how many the first one asks for. -/

theorem longest_two (h1 : 0xc2 ≤ b.toNat) (h2 : b.toNat ≤ 0xdf) (h : firstPiece b r = (.broken bs, r')) :
    Longest bs r' := by
  have hlow : ¬ b.toNat < 0x80 := by omega
  simp only [firstPiece, UInt8.lt_iff_toNat_lt, UInt8.le_iff_toNat_le, UInt8.reduceToNat, Bool.and_eq_true,
    decide_eq_true_eq, hlow, h1, h2, if_true, if_false, and_self] at h
  split at h
  · split at h
    · cases h
    · cases h
      exact .of_two h2 (by simp_all)
  · cases h
    exact .of_two h2 (by simp)

theorem longest_three (h1 : 0xe0 ≤ b.toNat) (h2 : b.toNat ≤ 0xef) (h : firstPiece b r = (.broken bs, r')) :
    Longest bs r' := by
  have hlow : ¬ b.toNat < 0x80 ∧ ¬ b.toNat ≤ 0xdf := by omega
  simp only [firstPiece, UInt8.lt_iff_toNat_lt, UInt8.le_iff_toNat_le, UInt8.reduceToNat, Bool.and_eq_true,
    decide_eq_true_eq, hlow, h1, h2, if_true, if_false, and_false, and_self] at h
  split at h
  · split at h
    · rename_i hs
      have hbegin := isBeginning_pair h1 (by omega) hs
      split at h
      · split at h
        · cases h
        · cases h
          exact .of_beginning hbegin (by simp) (by simp_all)
      · cases h
        exact .of_beginning hbegin (by simp) (by simp)
    · cases h
      exact .of_more h1 (by simp_all)
  · cases h
    exact .of_more h1 (by simp)

theorem longest_four (h1 : 0xf0 ≤ b.toNat) (h2 : b.toNat ≤ 0xf4) (h : firstPiece b r = (.broken bs, r')) :
    Longest bs r' := by
  have hlow : ¬ b.toNat < 0x80 ∧ ¬ b.toNat ≤ 0xdf ∧ ¬ b.toNat ≤ 0xef := by omega
  have hmore : 0xe0 ≤ b.toNat := by omega
  simp only [firstPiece, UInt8.lt_iff_toNat_lt, UInt8.le_iff_toNat_le, UInt8.reduceToNat, Bool.and_eq_true,
    decide_eq_true_eq, hlow, h1, h2, if_true, if_false, and_false, and_self] at h
  split at h
  · split at h
    · rename_i hs
      have hbegin := isBeginning_pair hmore h2 hs
      split at h
      · split at h
        · rename_i hd
          have hbegin' := isBeginning_triple h1 h2 hs hd
          split at h
          · split at h
            · cases h
            · cases h
              exact .of_beginning hbegin' (by simp) (by simp_all)
          · cases h
            exact .of_beginning hbegin' (by simp) (by simp)
        · cases h
          exact .of_beginning hbegin (by simp) (by simp_all)
      · cases h
        exact .of_beginning hbegin (by simp) (by simp)
    · cases h
      exact .of_more hmore (by simp_all)
  · cases h
    exact .of_more hmore (by simp)

theorem longest_of_firstPiece (h : firstPiece b r = (.broken bs, r')) : Longest bs r' := by
  by_cases htwo : 0xc2 ≤ b.toNat ∧ b.toNat ≤ 0xdf
  · exact longest_two htwo.1 htwo.2 h
  by_cases hthree : 0xe0 ≤ b.toNat ∧ b.toNat ≤ 0xef
  · exact longest_three hthree.1 hthree.2 h
  by_cases hfour : 0xf0 ≤ b.toNat ∧ b.toNat ≤ 0xf4
  · exact longest_four hfour.1 hfour.2 h
  simp only [firstPiece, UInt8.lt_iff_toNat_lt, UInt8.le_iff_toNat_le, UInt8.reduceToNat, Bool.and_eq_true,
    decide_eq_true_eq, htwo, hthree, hfour, if_false] at h
  split at h
  · cases h
  · cases h
    refine .single fun x y hr hx => ?_
    rcases hx.second with ⟨h1, h2, -⟩ | ⟨h1, h2, -⟩
    · exact htwo ⟨h1, h2⟩
    · omega

/-- The reader cuts off a run exactly where one is in front. -/
theorem firstPiece_eq_broken_iff : firstPiece b r = (.broken bs, r') ↔ b :: r = bs ++ r' ∧ Damaged bs r' := by
  have hdamaged : ∀ {as s}, firstPiece b r = (.broken as, s) → b :: r = as ++ s ∧ Damaged as s := by
    intro as s h
    have hbytes := bytes_firstPiece b r
    rw [h] at hbytes
    refine ⟨hbytes.symm, longest_of_firstPiece h, fun c ⟨u, hu⟩ => ?_⟩
    have hchar : firstPiece b r = (.char c, u) := firstPiece_eq_char_iff.2 (hbytes.symm.trans hu.symm)
    rw [h] at hchar
    cases hchar
  refine ⟨hdamaged, fun ⟨hbytes, h⟩ => ?_⟩
  cases hp : firstPiece b r with
  | mk p s =>
    cases p with
    | char c =>
      have hc := firstPiece_eq_char_iff.1 hp
      exact absurd ⟨s, hc.symm.trans hbytes⟩ (h.no_char c)
    | broken as =>
      obtain ⟨heq, h'⟩ := hdamaged hp
      obtain ⟨rfl, rfl⟩ := h.toLongest.unique h'.toLongest (hbytes.symm.trans heq)
      rfl

/-! ## The text that is shown -/

/-- The text that shows a byte string: its characters, and U+FFFD for each run in between. -/
inductive Replaced : Bytes → List Char → Prop
  | nil : Replaced [] []
  | char {c : Char} {r : Bytes} {t : List Char} : Replaced r t → Replaced (String.utf8EncodeChar c ++ r) (c :: t)
  | damaged {bs r : Bytes} {t : List Char} : Damaged bs r → Replaced r t → Replaced (bs ++ r) (replacement :: t)

theorem lossy_cons (b : UInt8) (r : Bytes) :
    lossy (b :: r) = (firstPiece b r).1.orReplacement :: lossy (firstPiece b r).2 := by
  rw [lossy, pieces, List.map_cons]
  rfl

theorem replaced_lossy (bs : Bytes) : Replaced bs (lossy bs) := by
  fun_induction pieces bs with
  | case1 =>
    rw [lossy, pieces]
    exact .nil
  | case2 b r ih =>
    rw [lossy_cons]
    cases hp : firstPiece b r with
    | mk p r' =>
      rw [hp] at ih
      cases p with
      | char c =>
        rw [firstPiece_eq_char_iff.1 hp]
        exact .char ih
      | broken bs =>
        obtain ⟨hbytes, hdamaged⟩ := firstPiece_eq_broken_iff.1 hp
        rw [hbytes]
        exact .damaged hdamaged ih

theorem replaced_iff : Replaced bs t ↔ lossy bs = t := by
  constructor
  · intro h
    induction h with
    | nil => simp [lossy, pieces]
    | @char c r t _ ih =>
      obtain ⟨b, bs, hb⟩ := exists_encode c
      have hp : firstPiece b (bs ++ r) = (.char c, r) := by
        rw [firstPiece_eq_char_iff, hb]
        rfl
      rw [hb, List.cons_append, lossy_cons, hp, ih]
      rfl
    | @damaged bs r t hd _ ih =>
      obtain ⟨b, as, rfl⟩ := List.exists_cons_of_ne_nil hd.ne_nil
      have hp : firstPiece b (as ++ r) = (.broken (b :: as), r) := firstPiece_eq_broken_iff.2 ⟨rfl, hd⟩
      rw [List.cons_append, lossy_cons, hp, ih]
      rfl
  · rintro rfl
    exact replaced_lossy bs

/-- An undamaged text is shown as it is. -/
theorem replaced_utf8_iff : Replaced (utf8 s) t ↔ t = s := by
  have hself : Replaced (utf8 s) s := by
    induction s with
    | nil => exact .nil
    | cons c s ih => exact .char ih
  rw [replaced_iff, replaced_iff.1 hself, eq_comm]

/-! ## Characters that are shown -/

theorem continues_firstPiece (b : UInt8) (r : Bytes) :
    ∀ x ∈ (firstPiece b r).1.bytes.tail, isContinuation x = true := by
  cases hp : firstPiece b r with
  | mk p r' =>
    cases p with
    | char c => exact (encoded_encode c).continues
    | broken bs => exact (longest_of_firstPiece hp).continues

/-- A character that does not begin with the first piece is in what follows it. -/
theorem infix_of_firstPiece {u : Bytes} (hs : as ≠ []) (h : as ++ (String.utf8EncodeChar c ++ u) = b :: r) :
    String.utf8EncodeChar c <:+: (firstPiece b r).2 := by
  rw [← bytes_firstPiece b r] at h
  rcases List.append_eq_append_iff.1 h with ⟨x, hx, hr⟩ | ⟨x, -, hr⟩
  · cases x with
    | nil => exact ⟨[], u, hr⟩
    | cons y x =>
      -- The character would begin with a continuation.
      obtain ⟨d, ds, hd⟩ := exists_encode c
      have hbegins := encoded_encode c
      rw [hd] at hr hbegins
      obtain ⟨rfl, -⟩ := List.cons.inj hr
      have hcontinues := continues_firstPiece b r d (by
        rw [hx, List.tail_append_of_ne_nil hs]
        exact List.mem_append_right _ (List.mem_cons_self ..))
      rw [hbegins.begins] at hcontinues
      cases hcontinues
  · rw [hr]
    exact ⟨x, u, by rw [List.append_assoc]⟩

/-- A character shows exactly if its bytes occur. U+FFFD may also stand for a run that was damaged. -/
theorem mem_lossy_iff (hc : c ≠ replacement) : c ∈ lossy bs ↔ String.utf8EncodeChar c <:+: bs := by
  constructor
  · intro h
    obtain ⟨p, hp, rfl⟩ := List.mem_map.1 h
    have hinfix := List.infix_of_mem_flatten (List.mem_map_of_mem (f := Piece.bytes) hp)
    rw [← List.flatMap_def, bytes_pieces] at hinfix
    cases p with
    | char d => exact hinfix
    | broken as => exact absurd rfl hc
  · intro h
    fun_induction pieces bs with
    | case1 =>
      obtain ⟨b, as, hb⟩ := exists_encode c
      rw [List.infix_nil, hb] at h
      cases h
    | case2 b r ih =>
      rw [lossy_cons]
      obtain ⟨as, u, hu⟩ := h
      rw [List.append_assoc] at hu
      by_cases hs : as = []
      · subst hs
        rw [firstPiece_eq_char_iff.2 hu.symm]
        exact List.mem_cons_self ..
      · exact List.mem_cons_of_mem _ (ih (infix_of_firstPiece hs hu))

end IconMaker.Text
