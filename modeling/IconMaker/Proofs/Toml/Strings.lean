import IconMaker.Proofs.Toml.Layout

/-
  IconMaker.Proofs.Toml.Strings — the notation of strings, and that the readers follow it.

  `OneLine` is a string within one line, behind its opening quote: every character stands for
  itself or, in a basic string, is escaped. `Body` is a string over several lines. It counts
  how many quotes may still follow one another as content: two at the beginning and behind
  anything else, so three in a row always end the string, and up to five may stand there. A
  backslash before a line break takes away all blanks and line breaks up to something else.

  Proved: a reader takes a string from the text exactly if the text begins with one that is
  spelled so (`string?_of_str`, `str_of_string?`), provided that no quote follows it.
-/

namespace IconMaker.Toml

variable {s s₁ s₂ s₃ r cs : List Char} {c q : Char} {k : Nat} {escaped : Bool}

def isQuote (c : Char) : Bool := c == '"' || c == '\''

theorem isQuote_iff : isQuote c = true ↔ c = '"' ∨ c = '\'' := by
  simp [isQuote]

/-! ## Strings within a line -/

/-- What may follow a backslash, and the character that it spells. -/
inductive Escape : List Char → Char → Prop
  | simple {x c : Char} : simpleEscape? x = some c → Escape [x] c
  | short {a b c d u : Char} : (hexNumber? [a, b, c, d]).bind character? = some u → Escape ['u', a, b, c, d] u
  | long {a b c d e f g h u : Char} : (hexNumber? [a, b, c, d, e, f, g, h]).bind character? = some u →
      Escape ['U', a, b, c, d, e, f, g, h] u

/-- A string within a line, from behind the opening quote to behind the closing one. -/
inductive OneLine (q : Char) (escaped : Bool) : List Char → List Char → List Char → Prop
  | close (r : List Char) : OneLine q escaped (q :: r) [] r
  | plain {c : Char} {s cs r : List Char} : isPlain c = true → c ≠ q → (escaped = true → c ≠ '\\') →
      OneLine q escaped s cs r → OneLine q escaped (c :: s) (c :: cs) r
  | escape {e s cs r : List Char} {c : Char} : escaped = true → Escape e c → OneLine q escaped s cs r →
      OneLine q escaped ('\\' :: (e ++ s)) (c :: cs) r

theorem OneLine.suffix (h : OneLine q escaped s cs r) : r <:+ s := by
  induction h with
  | close => exact List.suffix_cons _ _
  | plain _ _ _ _ ih => exact ih.trans (List.suffix_cons _ _)
  | escape _ _ _ ih => exact (ih.trans (List.suffix_append _ _)).trans (List.suffix_cons _ _)

theorem consContent_eq_some_iff {x : Option (List Char × List Char)} :
    consContent c x = some (cs, r) ↔ ∃ cs', cs = c :: cs' ∧ x = some (cs', r) := by
  cases x with
  | none => simp [consContent]
  | some y =>
    obtain ⟨a, b⟩ := y
    simp only [consContent, Option.map_some, Option.some.injEq, Prod.mk.injEq]
    constructor
    · rintro ⟨rfl, rfl⟩
      exact ⟨a, rfl, rfl, rfl⟩
    · rintro ⟨_, rfl, rfl, rfl⟩
      exact ⟨rfl, rfl⟩

theorem consNumbered_eq_some_iff {ds : List Char} {x : Option (List Char × List Char)} :
    consNumbered ds x = some (cs, r) ↔
      ∃ u cs', (hexNumber? ds).bind character? = some u ∧ cs = u :: cs' ∧ x = some (cs', r) := by
  unfold consNumbered
  cases hu : (hexNumber? ds).bind character? with
  | none => simp
  | some u => simp [consContent_eq_some_iff]

/-- The letters of the numbered escapes are no simple ones. -/
theorem simpleEscape?_ne {x : Char} (h : simpleEscape? x = some c) : x ≠ 'u' ∧ x ≠ 'U' := by
  constructor
  · rintro rfl
    cases h
  · rintro rfl
    cases h

theorem basic_plain (hc : c ≠ '"') (hb : c ≠ '\\') (s : List Char) :
    basic (c :: s) = if isPlain c then consContent c (basic s) else none := by
  rw [basic]
  · simp [hb]
  · exact hc
  · intro _ _ _ _ _ h
    exact absurd h hb
  · intro _ _ _ _ _ _ _ _ _ h
    exact absurd h hb
  · intro _ _ h
    exact absurd h hb

theorem basic_simple {x : Char} (h : simpleEscape? x = some c) (s : List Char) :
    basic ('\\' :: x :: s) = consContent c (basic s) := by
  obtain ⟨hu, hU⟩ := simpleEscape?_ne h
  rw [basic]
  · rw [h]
  · intro _ _ _ _ _ h
    exact absurd h hu
  · intro _ _ _ _ _ _ _ _ _ h
    exact absurd h hU

theorem basic_escape {e : List Char} (h : Escape e c) (s : List Char) :
    basic ('\\' :: (e ++ s)) = consContent c (basic s) := by
  cases h with
  | simple hx => exact basic_simple hx s
  | short hu | long hu =>
    simp only [List.cons_append, List.nil_append, basic, consNumbered, hu]

theorem basic_of_oneLine (h : OneLine '"' true s cs r) : basic s = some (cs, r) := by
  induction h with
  | close r => rfl
  | plain hp hne hb _ ih =>
    rw [basic_plain hne (hb rfl), if_pos hp, ih]
    rfl
  | escape _ hx _ ih =>
    rw [basic_escape hx, ih]
    rfl

theorem oneLine_of_basic (h : basic s = some (cs, r)) : OneLine '"' true s cs r := by
  fun_induction basic s generalizing cs with
  | case1 => cases h
  | case2 r' =>
    cases h
    exact .close _
  | case3 a b c d s ih =>
    obtain ⟨u, cs', hu, rfl, hs⟩ := consNumbered_eq_some_iff.1 h
    exact .escape rfl (.short hu) (ih hs)
  | case4 a b c d e f g i s ih =>
    obtain ⟨u, cs', hu, rfl, hs⟩ := consNumbered_eq_some_iff.1 h
    exact .escape rfl (.long hu) (ih hs)
  | case5 x s h₁ h₂ u hx ih =>
    obtain ⟨cs', rfl, hs⟩ := consContent_eq_some_iff.1 h
    exact .escape rfl (.simple hx) (ih hs)
  | case6 => cases h
  | case7 c s h₁ h₂ h₃ h₄ hc ih =>
    obtain ⟨cs', rfl, hs⟩ := consContent_eq_some_iff.1 h
    simp only [Bool.and_eq_true, bne_iff_ne] at hc
    exact .plain hc.1 h₁ (fun _ => hc.2) (ih hs)
  | case8 => cases h

theorem basic_eq_some_iff : basic s = some (cs, r) ↔ OneLine '"' true s cs r :=
  ⟨oneLine_of_basic, basic_of_oneLine⟩

theorem literal_eq_some_iff : literal s = some (cs, r) ↔ OneLine '\'' false s cs r := by
  constructor
  · intro h
    fun_induction literal s generalizing cs with
    | case1 => cases h
    | case2 r' =>
      cases h
      exact .close _
    | case3 c s hq hc ih =>
      obtain ⟨cs', rfl, hs⟩ := consContent_eq_some_iff.1 h
      exact .plain hc hq (fun h => by cases h) (ih hs)
    | case4 => cases h
  · intro h
    induction h with
    | close r => rfl
    | plain hp hne _ _ ih =>
      rw [literal]
      · rw [if_pos hp, ih]
        rfl
      · exact hne
    | escape ht => cases ht

/-! ## Strings over several lines -/

/-- Blanks and line breaks. -/
inductive Blanks : List Char → List Char → Prop
  | done (s : List Char) : Blanks s s
  | white {c : Char} {s r : List Char} : isWhite c = true → Blanks s r → Blanks (c :: s) r
  | line {s s₁ r : List Char} : Break s s₁ → Blanks s₁ r → Blanks s r

def startsBlank (s : List Char) : Bool := begins isWhite s || startsLine s

/-- A string over several lines, from behind the opening quotes to behind the closing ones,
    where at most `k` quotes may stand before something else does. -/
inductive Body (q : Char) (escaped : Bool) : Nat → List Char → List Char → List Char → Prop
  | close (k : Nat) (r : List Char) : Body q escaped k (q :: q :: q :: r) [] r
  | quote {k : Nat} {s cs r : List Char} : Body q escaped k s cs r → Body q escaped (k + 1) (q :: s) (q :: cs) r
  | plain {c : Char} {k : Nat} {s cs r : List Char} : isPlain c = true → c ≠ q → (escaped = true → c ≠ '\\') →
      Body q escaped 2 s cs r → Body q escaped k (c :: s) (c :: cs) r
  | line {k : Nat} {s s₁ cs r : List Char} : Break s s₁ → Body q escaped 2 s₁ cs r →
      Body q escaped k s ('\n' :: cs) r
  | escape {k : Nat} {e s cs r : List Char} {c : Char} : escaped = true → Escape e c → Body q escaped 2 s cs r →
      Body q escaped k ('\\' :: (e ++ s)) (c :: cs) r
  | join {k : Nat} {s s₁ s₂ s₃ cs r : List Char} : escaped = true → White s s₁ → Break s₁ s₂ → Blanks s₂ s₃ →
      startsBlank s₃ = false → Body q escaped 2 s₃ cs r → Body q escaped k ('\\' :: s) cs r

theorem Blanks.suffix (h : Blanks s r) : r <:+ s := by
  induction h with
  | done => exact List.suffix_refl _
  | white _ _ ih => exact ih.trans (List.suffix_cons _ _)
  | line hb _ ih => exact ih.trans hb.suffix

theorem Body.suffix (h : Body q escaped k s cs r) : r <:+ s := by
  induction h with
  | close k r => exact ⟨[q, q, q], rfl⟩
  | quote _ ih => exact ih.trans (List.suffix_cons _ _)
  | plain _ _ _ _ ih => exact ih.trans (List.suffix_cons _ _)
  | line hb _ ih => exact ih.trans hb.suffix
  | escape _ _ _ ih => exact (ih.trans (List.suffix_append _ _)).trans (List.suffix_cons _ _)
  | join _ hw hb hs _ _ ih =>
    exact (((ih.trans hs.suffix).trans hb.suffix).trans hw.suffix).trans (List.suffix_cons _ _)

/-! ### Quotes at the end -/

theorem isQuote_ne (hq : isQuote q = true) : q ≠ '\n' ∧ q ≠ '\r' ∧ q ≠ '\\' := by
  rcases isQuote_iff.1 hq with rfl | rfl
  · decide
  · decide

theorem closing_eq_self (h : begins (· == q) s = false) : closing q s = some ([], s) := by
  unfold closing
  repeat' split
  all_goals simp_all

theorem closing_one (h : begins (· == q) s = false) : closing q (q :: s) = some ([q], s) := by
  rcases s with _ | ⟨a, _ | ⟨b, s⟩⟩
  · simp [closing]
  · simp at h
    simp [closing, h]
  · simp at h
    simp [closing, h]

theorem closing_two (h : begins (· == q) s = false) : closing q (q :: q :: s) = some ([q, q], s) := by
  rcases s with _ | ⟨a, s⟩
  · simp [closing]
  · simp at h
    simp [closing, h]

/-- What ends a string is three quotes, with up to two more of them before. -/
theorem body_of_closing (h : closing q s = some (cs, r)) : Body q escaped 2 (q :: q :: q :: s) cs r := by
  by_cases h₁ : begins (· == q) s = true
  · obtain ⟨a, s, rfl, ha⟩ := exists_of_begins h₁
    rw [beq_iff_eq] at ha
    subst ha
    by_cases h₂ : begins (· == a) s = true
    · obtain ⟨b, s, rfl, hb⟩ := exists_of_begins h₂
      rw [beq_iff_eq] at hb
      subst hb
      by_cases h₃ : begins (· == b) s = true
      · obtain ⟨d, s, rfl, hd⟩ := exists_of_begins h₃
        rw [beq_iff_eq] at hd
        subst hd
        simp [closing] at h
      · rw [closing_two (by simpa using h₃)] at h
        cases h
        exact .quote (.quote (.close 0 _))
    · rw [closing_one (by simpa using h₂)] at h
      cases h
      exact .quote (.close 1 _)
  · rw [closing_eq_self (by simpa using h₁)] at h
    cases h
    exact .close 2 _

/-- A quote in a body ends it, or is content and takes the place of one. -/
theorem Body.quote_cases (hq : isQuote q = true) (h : Body q escaped k (q :: s) cs r) :
    (s = q :: q :: r ∧ cs = []) ∨ ∃ k' cs', k = k' + 1 ∧ cs = q :: cs' ∧ Body q escaped k' s cs' r := by
  obtain ⟨hn, hr, hb⟩ := isQuote_ne hq
  cases h with
  | close => exact Or.inl ⟨rfl, rfl⟩
  | quote h => exact Or.inr ⟨_, _, rfl, rfl, h⟩
  | plain _ hne => exact absurd rfl hne
  | line hbreak =>
    cases hbreak with
    | lineFeed => exact absurd rfl hn
    | carriageReturn => exact absurd rfl hr
  | escape => exact absurd rfl hb
  | join => exact absurd rfl hb

theorem closing_of_body (hq : isQuote q = true) (hk : k ≤ 2) (hr : begins (· == q) r = false)
    (h : Body q escaped k (q :: q :: q :: s) cs r) : closing q s = some (cs, r) := by
  rcases h.quote_cases hq with ⟨hs, rfl⟩ | ⟨k₁, cs₁, hk₁, rfl, h₁⟩
  · cases hs
    exact closing_eq_self hr
  rcases h₁.quote_cases hq with ⟨hs, rfl⟩ | ⟨k₂, cs₂, hk₂, rfl, h₂⟩
  · cases hs
    exact closing_one hr
  rcases h₂.quote_cases hq with ⟨rfl, rfl⟩ | ⟨k₃, cs₃, hk₃, rfl, h₃⟩
  · exact closing_two hr
  · omega

/-- The text does not begin with more than `k` quotes, or `k` is as large as it gets. -/
def Room (q : Char) (k : Nat) (s : List Char) : Prop := k = 2 ∨ ∀ t, s ≠ List.replicate (k + 1) q ++ t

theorem Room.three {t : List Char} (hk : k ≤ 2) (h : Room q k (q :: q :: q :: t)) : k = 2 := by
  rcases h with rfl | h
  · rfl
  · exfalso
    have hcases : k = 0 ∨ k = 1 ∨ k = 2 := by omega
    rcases hcases with rfl | rfl | rfl
    · exact h (q :: q :: t) rfl
    · exact h (q :: t) rfl
    · exact h t rfl

/-- Behind a quote that does not end the string there is room for one less. -/
theorem Room.tail (hk : k ≤ 2) (h : Room q k (q :: s)) (hs : ∀ t, s ≠ q :: q :: t) :
    ∃ k', k = k' + 1 ∧ k' ≤ 2 ∧ Room q k' s := by
  have hcases : k = 0 ∨ k = 1 ∨ k = 2 := by omega
  rcases hcases with rfl | rfl | rfl
  · rcases h with h | h
    · cases h
    · exact absurd rfl (h s)
  · refine ⟨0, rfl, by omega, Or.inr ?_⟩
    rintro t rfl
    rcases h with h | h
    · cases h
    · exact h t rfl
  · exact ⟨1, rfl, by omega, Or.inr fun t ht => hs t ht⟩

/-! ### Literal strings -/

/-- A character that begins neither an end nor a line break. -/
theorem literalLines_cons (hq : ∀ t, c = '\'' → s ≠ '\'' :: '\'' :: t) (hc : isPlain c = true) :
    literalLines (c :: s) = consContent c (literalLines s) := by
  obtain ⟨hn, hr⟩ := isPlain_ne hc
  rw [literalLines, if_pos hc]
  · exact hq
  · exact fun _ h => absurd h hr
  · exact hn

theorem literalLines_of_body (hk : k ≤ 2) (hr : begins (· == '\'') r = false) (h : Body '\'' false k s cs r) :
    literalLines s = some (cs, r) := by
  induction h with
  | close k r => exact closing_eq_self hr
  | @quote k s cs r h ih =>
    by_cases hs : ∃ t, s = '\'' :: '\'' :: t
    · obtain ⟨t, rfl⟩ := hs
      exact closing_of_body (by decide) hk hr (.quote h)
    · rw [literalLines_cons (fun t _ ht => hs ⟨t, ht⟩) rfl, ih (by omega) hr]
      rfl
  | plain hc hne _ _ ih =>
    rw [literalLines_cons (fun _ h => absurd h hne) hc, ih (by omega) hr]
    rfl
  | line hb _ ih =>
    have hs := ih (by omega) hr
    cases hb with
    | lineFeed | carriageReturn => rw [literalLines, hs]; rfl
  | escape ht | join ht => cases ht

theorem body_of_literalLines (hk : k ≤ 2) (hroom : Room '\'' k s) (h : literalLines s = some (cs, r)) :
    Body '\'' false k s cs r := by
  fun_induction literalLines s generalizing cs k with
  | case1 => cases h
  | case2 s =>
    have := hroom.three hk
    subst this
    exact body_of_closing h
  | case3 s ih =>
    obtain ⟨cs', rfl, hs⟩ := consContent_eq_some_iff.1 h
    exact .line (.carriageReturn s) (ih (by omega) (Or.inl rfl) hs)
  | case4 s ih =>
    obtain ⟨cs', rfl, hs⟩ := consContent_eq_some_iff.1 h
    exact .line (.lineFeed s) (ih (by omega) (Or.inl rfl) hs)
  | case5 c s h₁ h₂ h₃ hc ih =>
    obtain ⟨cs', rfl, hs⟩ := consContent_eq_some_iff.1 h
    by_cases hq : c = '\''
    · subst hq
      obtain ⟨k', rfl, hk', hroom'⟩ := hroom.tail hk fun t ht => h₁ t rfl ht
      exact .quote (ih hk' hroom' hs)
    · exact .plain hc hq (fun h => by cases h) (ih (by omega) (Or.inl rfl) hs)
  | case6 => cases h

/-! ### Basic strings -/

/-- A character that begins neither an end, nor a line break, nor an escape. -/
theorem basicLines_cons (joining : Bool) (hq : ∀ t, c = '"' → s ≠ '"' :: '"' :: t) (hn : c ≠ '\n') (hr : c ≠ '\r')
    (hb : c ≠ '\\') :
    basicLines joining (c :: s) =
      if joining && isWhite c then basicLines true s
      else if isPlain c then consContent c (basicLines false s) else none := by
  rw [basicLines]
  · simp [hb]
  · exact hq
  · exact fun _ h => absurd h hr
  · exact hn
  · exact fun _ _ _ _ _ h => absurd h hb
  · exact fun _ _ _ _ _ _ _ _ _ h => absurd h hb
  · exact fun _ _ h => absurd h hb

/-- A backslash, unless it begins a numbered escape. -/
theorem basicLines_slash {x : Char} (joining : Bool) (hu : x ≠ 'u') (hU : x ≠ 'U') (s : List Char) :
    basicLines joining ('\\' :: x :: s) =
      match simpleEscape? x with
      | some c => consContent c (basicLines false s)
      | none => if startsLine (skipWhite (x :: s)) then basicLines true (x :: s) else none := by
  rw [basicLines]
  · rfl
  · exact fun _ _ _ _ _ h => absurd h hu
  · exact fun _ _ _ _ _ _ _ _ _ h => absurd h hU

theorem basicLines_escape {e : List Char} (joining : Bool) (h : Escape e c) (s : List Char) :
    basicLines joining ('\\' :: (e ++ s)) = consContent c (basicLines false s) := by
  cases h with
  | simple hx =>
    obtain ⟨hu, hU⟩ := simpleEscape?_ne hx
    rw [List.singleton_append, basicLines_slash joining hu hU, hx]
  | short hu | long hu =>
    simp only [List.cons_append, List.nil_append, basicLines, consNumbered, hu]

/-- Where no blank and no line break begins, there is nothing to join. -/
theorem basicLines_true_eq (h : startsBlank s = false) : basicLines true s = basicLines false s := by
  simp only [startsBlank, Bool.or_eq_false_iff] at h
  obtain ⟨hw, hl⟩ := h
  unfold basicLines
  split <;> simp_all [startsLine]

theorem basicLines_white (hc : isWhite c = true) (s : List Char) :
    basicLines true (c :: s) = basicLines true s := by
  rcases isWhite_iff.1 hc with rfl | rfl
  · rw [basicLines_cons true (fun _ h => absurd h (by decide)) (by decide) (by decide) (by decide)]
    rfl
  · rw [basicLines_cons true (fun _ h => absurd h (by decide)) (by decide) (by decide) (by decide)]
    rfl

theorem basicLines_break (h : Break s s₁) (joining : Bool) :
    basicLines joining s = if joining then basicLines true s₁ else consContent '\n' (basicLines false s₁) := by
  cases h <;> rw [basicLines]

theorem basicLines_of_blanks (h : Blanks s s₁) (hs : startsBlank s₁ = false) :
    basicLines true s = basicLines false s₁ := by
  induction h with
  | done => exact basicLines_true_eq hs
  | white hc _ ih => rw [basicLines_white hc, ih hs]
  | line hb _ ih => rw [basicLines_break hb, if_pos rfl, ih hs]

theorem blanks_of_white (h : White s s₁) (h' : Blanks s₁ r) : Blanks s r := by
  obtain ⟨w, hw, rfl⟩ := h
  induction w with
  | nil => exact h'
  | cons c w ih => exact .white (hw c (List.mem_cons_self ..)) (ih fun d hd => hw d (List.mem_cons_of_mem _ hd))

theorem startsLine_of_break (h : Break s r) : startsLine s = true := by
  cases h <;> rfl

theorem exists_break (h : startsLine s = true) : ∃ r, Break s r := by
  unfold startsLine at h
  split at h
  · exact ⟨_, .lineFeed _⟩
  · exact ⟨_, .carriageReturn _⟩
  · cases h

/-- All blanks and line breaks at the beginning of a text. -/
theorem exists_blanks (s : List Char) : ∃ s₁, Blanks s s₁ ∧ startsBlank s₁ = false := by
  induction hn : s.length using Nat.strong_induction_on generalizing s with
  | _ n ih =>
    subst hn
    by_cases hw : begins isWhite s = true
    · obtain ⟨c, s, rfl, hc⟩ := exists_of_begins hw
      obtain ⟨s₁, hs, hblank⟩ := ih s.length (by simp) s rfl
      exact ⟨s₁, .white hc hs, hblank⟩
    by_cases hl : startsLine s = true
    · obtain ⟨s', hbreak⟩ := exists_break hl
      have hlt : s'.length < s.length := by
        cases hbreak <;> simp only [List.length_cons] <;> omega
      obtain ⟨s₁, hs, hblank⟩ := ih s'.length hlt s' rfl
      exact ⟨s₁, .line hbreak hs, hblank⟩
    · exact ⟨s, .done s, by simp [startsBlank, hw, hl]⟩

/-- What stands behind a backslash that joins lines spells nothing. -/
theorem no_escape (hw : White s s₁) (hb : Break s₁ s₂) :
    ∃ x t, s = x :: t ∧ simpleEscape? x = none ∧ x ≠ 'u' ∧ x ≠ 'U' := by
  obtain ⟨w, hw, rfl⟩ := hw
  rcases w with _ | ⟨x, w⟩
  · cases hb with
    | lineFeed => exact ⟨_, _, rfl, rfl, by decide, by decide⟩
    | carriageReturn => exact ⟨_, _, rfl, rfl, by decide, by decide⟩
  · have hx := hw x (List.mem_cons_self ..)
    rcases isWhite_iff.1 hx with rfl | rfl
    · exact ⟨_, _, rfl, rfl, by decide, by decide⟩
    · exact ⟨_, _, rfl, rfl, by decide, by decide⟩

theorem basicLines_of_body (hk : k ≤ 2) (hr : begins (· == '"') r = false) (h : Body '"' true k s cs r) :
    basicLines false s = some (cs, r) := by
  induction h with
  | close k r => exact closing_eq_self hr
  | @quote k s cs r h ih =>
    by_cases hs : ∃ t, s = '"' :: '"' :: t
    · obtain ⟨t, rfl⟩ := hs
      exact closing_of_body (by decide) hk hr (.quote h)
    · rw [basicLines_cons false (fun t _ ht => hs ⟨t, ht⟩) (by decide) (by decide) (by decide), ih (by omega) hr]
      rfl
  | plain hc hne hb _ ih =>
    obtain ⟨hn, hcr⟩ := isPlain_ne hc
    rw [basicLines_cons false (fun _ h => absurd h hne) hn hcr (hb rfl), ih (by omega) hr]
    simp [hc, consContent]
  | line hb _ ih =>
    rw [basicLines_break hb, ih (by omega) hr]
    rfl
  | escape _ hx _ ih =>
    rw [basicLines_escape false hx, ih (by omega) hr]
    rfl
  | @join k s s₁ s₂ s₃ cs r _ hw hb hs hblank _ ih =>
    obtain ⟨x, t, rfl, hx, hu, hU⟩ := no_escape hw hb
    have hstart : startsLine (skipWhite (x :: t)) = true := by
      rw [skipWhite_eq_of_white hw hb.begins.2]
      exact startsLine_of_break hb
    rw [basicLines_slash false hu hU, hx]
    simp only [hstart, if_true]
    rw [basicLines_of_blanks (blanks_of_white hw (.line hb hs)) hblank]
    exact ih (by omega) hr

theorem body_of_basicLines (hk : k ≤ 2) (hroom : Room '"' k s) (h : basicLines false s = some (cs, r)) :
    Body '"' true k s cs r := by
  induction hn : s.length using Nat.strong_induction_on generalizing s k cs with
  | _ n ih =>
    subst hn
    -- Behind anything but a quote there is room for two.
    have next : ∀ {s' cs'}, s'.length < s.length → basicLines false s' = some (cs', r) → Body '"' true 2 s' cs' r :=
      fun hlt hs => ih _ hlt (Nat.le_refl 2) (Or.inl rfl) hs rfl
    unfold basicLines at h
    split at h
    · cases h
    · have := hroom.three hk
      subst this
      exact body_of_closing h
    · rename_i s
      obtain ⟨cs', rfl, hs⟩ := consContent_eq_some_iff.1 h
      exact .line (.carriageReturn s) (next (by simp only [List.length_cons]; omega) hs)
    · rename_i s
      obtain ⟨cs', rfl, hs⟩ := consContent_eq_some_iff.1 h
      exact .line (.lineFeed s) (next (by simp) hs)
    · obtain ⟨u, cs', hu, rfl, hs⟩ := consNumbered_eq_some_iff.1 h
      exact .escape rfl (.short hu) (next (by simp only [List.length_cons]; omega) hs)
    · obtain ⟨u, cs', hu, rfl, hs⟩ := consNumbered_eq_some_iff.1 h
      exact .escape rfl (.long hu) (next (by simp only [List.length_cons]; omega) hs)
    · rename_i x s _ _
      split at h
      · rename_i u hu
        obtain ⟨cs', rfl, hs⟩ := consContent_eq_some_iff.1 h
        exact .escape rfl (.simple hu) (next (by simp only [List.length_cons]; omega) hs)
      · split at h
        · rename_i hstart
          obtain ⟨s₂, hb⟩ := exists_break hstart
          obtain ⟨s₃, hs, hblank⟩ := exists_blanks s₂
          have hw := white_skipWhite (x :: s)
          rw [basicLines_of_blanks (blanks_of_white hw (.line hb hs)) hblank] at h
          have hlt : s₃.length ≤ (x :: s).length := ((hs.suffix.trans hb.suffix).trans hw.suffix).length_le
          exact .join rfl hw hb hs hblank (next (by simp only [List.length_cons] at hlt ⊢; omega) h)
        · cases h
    · rename_i c s h₁ h₂ h₃ h₄ h₅ h₆
      simp only [Bool.false_and, Bool.false_eq_true, if_false] at h
      split at h
      · rename_i hc
        simp only [Bool.and_eq_true, bne_iff_ne] at hc
        obtain ⟨cs', rfl, hs⟩ := consContent_eq_some_iff.1 h
        by_cases hq : c = '"'
        · subst hq
          obtain ⟨k', rfl, hk', hroom'⟩ := hroom.tail hk fun t ht => h₁ t rfl ht
          exact .quote (ih _ (by simp) hk' hroom' hs rfl)
        · exact .plain hc.1 hq (fun _ => hc.2) (next (by simp) hs)
      · cases h

/-! ## The four spellings -/

/-- A line break right behind the opening quotes is no part of the string. -/
inductive Opened : List Char → List Char → Prop
  | trimmed {s s₁ : List Char} : Break s s₁ → Opened s s₁
  | whole {s : List Char} : startsLine s = false → Opened s s

/-- A string in any of the four spellings: what it stands for, and what follows it. -/
inductive Str : List Char → List Char → List Char → Prop
  | basic {s cs r : List Char} : OneLine '"' true s cs r → Str ('"' :: s) cs r
  | literal {s cs r : List Char} : OneLine '\'' false s cs r → Str ('\'' :: s) cs r
  | basicLines {s s₁ cs r : List Char} : Opened s s₁ → Body '"' true 2 s₁ cs r → Str ('"' :: '"' :: '"' :: s) cs r
  | literalLines {s s₁ cs r : List Char} : Opened s s₁ → Body '\'' false 2 s₁ cs r →
      Str ('\'' :: '\'' :: '\'' :: s) cs r

theorem Opened.suffix (h : Opened s s₁) : s₁ <:+ s := by
  cases h with
  | trimmed hb => exact hb.suffix
  | whole => exact List.suffix_refl _

theorem Str.suffix (h : Str s cs r) : r <:+ s := by
  cases h with
  | basic h | literal h => exact h.suffix.trans (List.suffix_cons _ _)
  | basicLines ho hb | literalLines ho hb => exact (hb.suffix.trans ho.suffix).trans ⟨[_, _, _], rfl⟩

theorem Str.begins (h : Str s cs r) : begins isQuote s = true := by
  cases h <;> rfl

theorem dropFirstBreak_of_opened (h : Opened s s₁) : dropFirstBreak s = s₁ := by
  cases h with
  | trimmed hb => cases hb <;> rfl
  | whole hl =>
    unfold dropFirstBreak
    split
    · cases hl
    · cases hl
    · rfl

theorem opened_dropFirstBreak (s : List Char) : Opened s (dropFirstBreak s) := by
  by_cases hl : startsLine s = true
  · obtain ⟨r, hb⟩ := exists_break hl
    have hopened := Opened.trimmed hb
    rw [dropFirstBreak_of_opened hopened]
    exact hopened
  · have hopened : Opened s s := .whole (by simpa using hl)
    rw [dropFirstBreak_of_opened hopened]
    exact hopened

/-- A string that is followed by no quote and begins with two has nothing between them. -/
theorem OneLine.not_quote (hr : begins isQuote r = false) (hq : isQuote q = true)
    (h : OneLine q escaped s cs r) (t : List Char) : s ≠ q :: q :: t := by
  intro hs
  cases h with
  | close =>
    cases hs
    simp [hq] at hr
  | plain _ hne =>
    cases hs
    exact hne rfl
  | escape => exact (isQuote_ne hq).2.2 (List.cons.inj hs).1.symm

theorem string?_of_str (hr : begins isQuote r = false) (h : Str s cs r) : string? s = some (cs, r) := by
  have hdouble : begins (· == '"') r = false := by
    rcases r with _ | ⟨c, r⟩
    · rfl
    · simp [isQuote] at hr
      simp [hr.1]
  have hsingle : begins (· == '\'') r = false := by
    rcases r with _ | ⟨c, r⟩
    · rfl
    · simp [isQuote] at hr
      simp [hr.2]
  cases h with
  | basic h =>
    rw [string?]
    · exact basic_of_oneLine h
    · intro t ht
      exact h.not_quote hr (by decide) t ht
  | literal h =>
    rw [string?]
    · exact literal_eq_some_iff.2 h
    · intro t ht
      exact h.not_quote hr (by decide) t ht
  | basicLines ho hb =>
    rw [string?, dropFirstBreak_of_opened ho]
    exact basicLines_of_body (Nat.le_refl 2) hdouble hb
  | literalLines ho hb =>
    rw [string?, dropFirstBreak_of_opened ho]
    exact literalLines_of_body (Nat.le_refl 2) hsingle hb

theorem str_of_string? (h : string? s = some (cs, r)) : Str s cs r := by
  unfold string? at h
  split at h
  · exact .basicLines (opened_dropFirstBreak _) (body_of_basicLines (Nat.le_refl 2) (Or.inl rfl) h)
  · exact .literalLines (opened_dropFirstBreak _) (body_of_literalLines (Nat.le_refl 2) (Or.inl rfl) h)
  · exact .basic (basic_eq_some_iff.1 h)
  · exact .literal (literal_eq_some_iff.1 h)
  · cases h

end IconMaker.Toml
