import IconMaker.Proofs.Size.Forms

/-
  IconMaker.Proofs.Size — which texts are sizes, and what is said of the others.

  A number is an edge or not (`ofEdge_eq_ok_iff`, `ofEdge_eq_error_iff`), and two numbers are the
  sides of a square or not (`ofPair_eq_ok_iff`, `ofPair_eq_error_iff`).
  - `texts_are_classified`: so every outcome belongs to texts of a form with certain numbers in
    it, or to those that have none.
  - `parse_digits` / `parse_text`: the decimal digits of a number and what is written for a size
    are texts of the two forms. They read back.
-/

namespace IconMaker.Size

variable {s : List Char} {n w h : Nat} {z : Size} {e : SizeError}

/-! ## Edges -/

theorem ofEdge_edge (z : Size) : ofEdge z.edge = .ok z := by
  have h₁ := z.pos
  have h₂ := z.le_max
  rw [ofEdge, dif_neg (Nat.ne_of_gt h₁), dif_pos h₂]

theorem ofEdge_eq_ok_iff : ofEdge n = .ok z ↔ n = z.edge := by
  constructor
  · intro h
    unfold ofEdge at h
    split at h
    · cases h
    · split at h
      · cases h
        rfl
      · cases h
  · rintro rfl
    exact ofEdge_edge z

theorem ofEdge_eq_error_iff : ofEdge n = .error e ↔ n = 0 ∧ e = .zero ∨ maxEdge < n ∧ e = .tooLarge n := by
  unfold ofEdge
  split
  · rename_i hn
    subst hn
    simp [eq_comm]
  · rename_i hn
    split
    · rename_i hle
      simp [hn, Nat.not_lt.2 hle]
    · rename_i hle
      simp [hn, Nat.not_le.1 hle, eq_comm]

theorem ofPair_eq_ok_iff : ofPair w h = .ok z ↔ w = z.edge ∧ h = z.edge := by
  unfold ofPair
  by_cases hwh : w = h
  · subst hwh
    rw [if_pos rfl, ofEdge_eq_ok_iff, and_self]
  · rw [if_neg hwh]
    constructor
    · intro hok
      cases hok
    · rintro ⟨hw, hh⟩
      exact absurd (hw.trans hh.symm) hwh

theorem ofPair_eq_error_iff :
    ofPair w h = .error e ↔ w ≠ h ∧ e = .notSquare w h ∨ w = h ∧ ofEdge w = .error e := by
  unfold ofPair
  by_cases hwh : w = h
  · simp [hwh]
  · simp [hwh, eq_comm]

/-! ## Classification -/

/-- The text states one number, by itself or as both sides. -/
def States (s : List Char) (n : Nat) : Prop := Alone s n ∨ Pair s n n

theorem parse_eq_ok_iff : parse s = .ok z ↔ States s z.edge := by
  constructor
  · intro hok
    rcases reading_cases s with ⟨n, ha, he⟩ | ⟨w, h, hp, he⟩ | ⟨-, -, he⟩
    · rw [he, ofEdge_eq_ok_iff] at hok
      exact Or.inl (hok ▸ ha)
    · rw [he, ofPair_eq_ok_iff] at hok
      obtain ⟨rfl, rfl⟩ := hok
      exact Or.inr hp
    · rw [he] at hok
      cases hok
  · rintro (ha | hp)
    · rw [parse_of_alone ha, ofEdge_edge]
    · rw [parse_of_pair hp, ofPair_eq_ok_iff]
      exact ⟨rfl, rfl⟩

/-- Why a text is no size: what it says, or that it has no form. -/
inductive Wrong (s : List Char) : SizeError → Prop
  | zero : States s 0 → Wrong s .zero
  | tooLarge {n : Nat} : States s n → 256 < n → Wrong s (.tooLarge n)
  | notSquare {w h : Nat} : Pair s w h → w ≠ h → Wrong s (.notSquare w h)
  | malformed {t : List Char} : Trimmed s t → (∀ n, ¬ Alone s n) → (∀ w h, ¬ Pair s w h) → Wrong s (.malformed t)

theorem wrong_of_edge (hs : States s n) (he : ofEdge n = .error e) : Wrong s e := by
  rcases ofEdge_eq_error_iff.1 he with ⟨rfl, rfl⟩ | ⟨hlt, rfl⟩
  · exact .zero hs
  · exact .tooLarge hs hlt

theorem parse_of_states (hs : States s n) : parse s = ofEdge n := by
  rcases hs with ha | hp
  · exact parse_of_alone ha
  · rw [parse_of_pair hp, ofPair, if_pos rfl]

theorem parse_eq_error_iff : parse s = .error e ↔ Wrong s e := by
  constructor
  · intro herr
    rcases reading_cases s with ⟨n, ha, he⟩ | ⟨w, h, hp, he⟩ | ⟨ha, hp, he⟩
    · exact wrong_of_edge (Or.inl ha) (he ▸ herr)
    · rw [he, ofPair_eq_error_iff] at herr
      rcases herr with ⟨hne, rfl⟩ | ⟨rfl, hedge⟩
      · exact .notSquare hp hne
      · exact wrong_of_edge (Or.inr hp) hedge
    · rw [he] at herr
      cases herr
      exact .malformed (trimmed_trim s) ha hp
  · intro hw
    cases hw with
    | zero hs => rw [parse_of_states hs, ofEdge_eq_error_iff.2 (Or.inl ⟨rfl, rfl⟩)]
    | tooLarge hs hlt => rw [parse_of_states hs, ofEdge_eq_error_iff.2 (Or.inr ⟨hlt, rfl⟩)]
    | notSquare hp hne => rw [parse_of_pair hp, ofPair_eq_error_iff.2 (Or.inl ⟨hne, rfl⟩)]
    | malformed ht ha hp => rw [parse_of_no_form ha hp, trim_of_trimmed ht]

/-- A text is read as a size exactly if it states one number from 1 to 256. Otherwise it is refused:
    for two sides exactly if it has the form of a pair with different numbers, for zero or for a
    number that is too large exactly if it states one, and as malformed, without the blanks around
    it, exactly if it has neither form. -/
theorem texts_are_classified (s : List Char) :
    (∀ n, (∃ z, parse s = .ok z ∧ z.edge = n) ↔ States s n ∧ 1 ≤ n ∧ n ≤ 256) ∧
    (∀ w h, parse s = .error (.notSquare w h) ↔ Pair s w h ∧ w ≠ h) ∧
    (parse s = .error .zero ↔ States s 0) ∧
    (∀ n, parse s = .error (.tooLarge n) ↔ States s n ∧ 256 < n) ∧
    (∀ t, parse s = .error (.malformed t) ↔ Trimmed s t ∧ (∀ n, ¬ Alone s n) ∧ ∀ w h, ¬ Pair s w h) ∧
    (Spoiled s → ∃ t, Trimmed s t ∧ parse s = .error (.malformed t)) ∧
    parse s ≠ .error .empty ∧ ∀ z, parse s ≠ .error (.duplicate z) := by
  refine ⟨fun n => ⟨?_, ?_⟩, fun w h => ?_, ?_, fun n => ?_, fun t => ?_, fun hs => ?_, ?_, fun z => ?_⟩
  · rintro ⟨z, hz, rfl⟩
    exact ⟨parse_eq_ok_iff.1 hz, z.pos, z.le_max⟩
  · rintro ⟨hs, hpos, hle⟩
    exact ⟨⟨n, hpos, hle⟩, parse_eq_ok_iff.2 hs, rfl⟩
  · rw [parse_eq_error_iff]
    exact ⟨fun | .notSquare hp hne => ⟨hp, hne⟩, fun ⟨hp, hne⟩ => .notSquare hp hne⟩
  · rw [parse_eq_error_iff]
    exact ⟨fun | .zero hs => hs, .zero⟩
  · rw [parse_eq_error_iff]
    exact ⟨fun | .tooLarge hs hlt => ⟨hs, hlt⟩, fun ⟨hs, hlt⟩ => .tooLarge hs hlt⟩
  · rw [parse_eq_error_iff]
    exact ⟨fun | .malformed ht ha hp => ⟨ht, ha, hp⟩, fun ⟨ht, ha, hp⟩ => .malformed ht ha hp⟩
  · obtain ⟨ha, hp⟩ := no_form_of_spoiled hs
    exact ⟨_, trimmed_trim s, parse_of_no_form ha hp⟩
  · rw [ne_eq, parse_eq_error_iff]
    rintro ⟨⟩
  · rw [ne_eq, parse_eq_error_iff]
    rintro ⟨⟩

/-- Sixteen twice, with a plus, zeros and an ideographic space. -/
def wideText : List Char := [' ', '+', '0', '0', '1', '6', Char.ofNat 0x3000, 'X', '1', '6']

theorem states_wideText : States wideText 16 := by
  have hone : Digits ['1'] 1 := .one rfl
  have hsixteen : Digits ['1', '6'] 16 := .snoc hone rfl
  have hzeros : Digits ['0', '0', '1', '6'] 16 := .snoc (.snoc (.snoc (.one (c := '0') rfl) rfl) rfl) rfl
  exact Or.inr ⟨_, 'X', _, rfl, Or.inr rfl,
    ⟨[' '], _, [Char.ofNat 0x3000], rfl, blanks_single rfl, blanks_single rfl, .signed hzeros (by decide)⟩,
    ⟨[], _, [], rfl, blanks_nil, blanks_nil, .plain hsixteen (by decide)⟩⟩

/-- Blanks around a numeral are passed over, one within a numeral is not. -/
theorem an_inner_blank_is_refused :
    States wideText 16 ∧ (∃ z, parse wideText = .ok z ∧ z.edge = 16) ∧
    Spoiled ['1', ' ', '6'] ∧ ∃ t, Trimmed ['1', ' ', '6'] t ∧ parse ['1', ' ', '6'] = .error (.malformed t) := by
  have hspoiled : Spoiled ['1', ' ', '6'] :=
    .alone (by decide) (by decide) (.inner (a := []) (d := [' ']) (b := []) rfl (blanks_single rfl) (by decide) rfl)
  obtain ⟨-, -, -, -, -, hrefused, -⟩ := texts_are_classified ['1', ' ', '6']
  exact ⟨states_wideText, ((texts_are_classified wideText).1 16).2 ⟨states_wideText, by decide, by decide⟩, hspoiled,
    hrefused hspoiled⟩

/-! ## Reading back -/

/-- The decimal digits of a number are a numeral of it. -/
theorem digits_toDigits (n : Nat) : Digits (Nat.toDigits 10 n) n := by
  have hvalue : digitsValue (Nat.toDigits 10 n) = n := Nat.ofDigitChars_ten_toDigits
  have hdigits : Digits (Nat.toDigits 10 n) (digitsValue (Nat.toDigits 10 n)) :=
    digits_of_isDigit Nat.toDigits_ne_nil fun c hc => Nat.isDigit_of_mem_toDigits (by decide) (by decide) hc
  rwa [hvalue] at hdigits

theorem alone_toDigits (hn : n < maxNumber) : Alone (Nat.toDigits 10 n) n :=
  ⟨[], _, [], by simp, blanks_nil, blanks_nil, .plain (digits_toDigits n) hn⟩

/-- A number is read from its digits. -/
theorem parse_digits (h : n < maxNumber) : parse (Nat.toDigits 10 n) = ofEdge n := parse_of_alone (alone_toDigits h)

/-- A size reads back from its text. -/
theorem parse_text (s : Size) : parse s.text = .ok s := by
  have hlt : s.edge < maxNumber := Nat.lt_of_le_of_lt s.le_max (by decide)
  exact parse_eq_ok_iff.2 (Or.inr ⟨_, 'x', _, rfl, Or.inl rfl, alone_toDigits hlt, alone_toDigits hlt⟩)

end IconMaker.Size
