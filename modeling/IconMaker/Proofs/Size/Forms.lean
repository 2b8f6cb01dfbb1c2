import Mathlib.Data.List.DropRight
import Mathlib.Data.List.TakeDrop
import Mathlib.Data.List.TakeWhile
import Mathlib.Tactic.IntervalCases
import Mathlib.Tactic.Tauto
import IconMaker.Size

/-
  IconMaker.Proofs.Size.Forms — the forms that a text of a size can have.

  A text has a form if it is a numeral (`Alone`) or two numerals with a cross between them
  (`Pair`), with blanks around each numeral. What the reader makes of a text depends on its
  form and the numbers in it only.
  - `numeral?_eq_some_iff` / `trim_eq_iff`: the parts of the reader find what they are meant to.
  - `reading_cases`: a text with a form is judged by its numbers, one without is malformed.
  - `no_form_of_spoiled`: what keeps a text from having a form.
-/

namespace IconMaker.Size

/-! ## Forms -/

/-- A run of White_Space. -/
def Blanks (s : List Char) : Prop := ∀ c ∈ s, Text.isBlank c = true

/-- Decimal digits and their value. -/
inductive Digits : List Char → Nat → Prop
  | one {c : Char} : c.isDigit = true → Digits [c] (c.toNat - 48)
  | snoc {ds : List Char} {n : Nat} {c : Char} : Digits ds n → c.isDigit = true →
      Digits (ds ++ [c]) (10 * n + (c.toNat - 48))

/-- Digits, perhaps behind a plus, of a number that is not too large. -/
inductive Numeral : List Char → Nat → Prop
  | plain {ds : List Char} {n : Nat} : Digits ds n → n < 2 ^ 32 → Numeral ds n
  | signed {ds : List Char} {n : Nat} : Digits ds n → n < 2 ^ 32 → Numeral ('+' :: ds) n

/-- A numeral with blanks around it. -/
def Alone (s : List Char) (n : Nat) : Prop := ∃ a t b, s = a ++ t ++ b ∧ Blanks a ∧ Blanks b ∧ Numeral t n

/-- Two numerals, each with blanks around it, and a cross between them. -/
def Pair (s : List Char) (w h : Nat) : Prop :=
  ∃ l x r, s = l ++ x :: r ∧ (x = 'x' ∨ x = 'X') ∧ Alone l w ∧ Alone r h

/-- What no numeral with blanks around it is like. -/
inductive SpoiledSide : List Char → Prop
  /-- There is nothing. -/
  | missing {s : List Char} : Blanks s → SpoiledSide s
  | minus {s : List Char} : '-' ∈ s → SpoiledSide s
  /-- There are blanks with other characters on both sides. -/
  | inner {a d b : List Char} {c e : Char} : Text.isBlank c = false → Blanks d → d ≠ [] → Text.isBlank e = false →
      SpoiledSide (a ++ c :: (d ++ e :: b))
  /-- There are digits of a number that is too large. -/
  | large {a ds b : List Char} {n : Nat} : Digits ds n → 2 ^ 32 ≤ n → SpoiledSide (a ++ ds ++ b)

/-- What no text of either form is like. -/
inductive Spoiled : List Char → Prop
  | alone {s : List Char} : 'x' ∉ s → 'X' ∉ s → SpoiledSide s → Spoiled s
  | left {l r : List Char} {x : Char} : x = 'x' ∨ x = 'X' → SpoiledSide l → Spoiled (l ++ x :: r)
  | right {l r : List Char} {x : Char} : x = 'x' ∨ x = 'X' → SpoiledSide r → Spoiled (l ++ x :: r)
  /-- There is a second cross. -/
  | crosses {l m r : List Char} {x y : Char} : x = 'x' ∨ x = 'X' → y = 'x' ∨ y = 'X' →
      Spoiled (l ++ x :: (m ++ y :: r))

/-- The text `t` is `s` without the blanks around it. -/
structure Trimmed (s t : List Char) : Prop where
  around : ∃ a b, s = a ++ t ++ b ∧ Blanks a ∧ Blanks b
  head : ∀ c, t.head? = some c → Text.isBlank c = false
  last : ∀ c, t.getLast? = some c → Text.isBlank c = false

variable {s t l r ds : List Char} {n w h : Nat} {c x : Char}

/-! ## Numerals -/

/-- A character that a numeral can do with. -/
theorem plain_of_isDigit (h : c.isDigit = true) : Text.isBlank c = false ∧ isCross c = false ∧ c ≠ '+' := by
  have hle : 48 ≤ c.toNat ∧ c.toNat ≤ 57 := by
    simpa [Char.isDigit, UInt32.le_iff_toNat_le] using h
  have hcases : ∀ m, 48 ≤ m → m ≤ 57 →
      Text.isBlank (Char.ofNat m) = false ∧ isCross (Char.ofNat m) = false ∧ Char.ofNat m ≠ '+' := by
    intro m h1 h2
    interval_cases m <;> decide
  have := hcases c.toNat hle.1 hle.2
  rwa [Char.ofNat_toNat] at this

theorem digitsValue_snoc (ds : List Char) (c : Char) :
    digitsValue (ds ++ [c]) = 10 * digitsValue ds + (c.toNat - 48) := by
  rw [digitsValue, List.foldl_append]
  rfl

theorem Digits.ne_nil (hd : Digits ds n) : ds ≠ [] := by
  cases hd <;> simp

theorem Digits.isDigit (hd : Digits ds n) : ∀ c ∈ ds, c.isDigit = true := by
  induction hd with
  | one hc => simpa using hc
  | snoc _ hc ih =>
    intro d hmem
    rcases List.mem_append.1 hmem with hmem | hmem
    · exact ih d hmem
    · rw [List.mem_singleton.1 hmem]
      exact hc

theorem Digits.value (hd : Digits ds n) : digitsValue ds = n := by
  induction hd with
  | one => simp [digitsValue]
  | snoc _ _ ih => rw [digitsValue_snoc, ih]

theorem digits_of_isDigit (hne : ds ≠ []) (hall : ∀ c ∈ ds, c.isDigit = true) : Digits ds (digitsValue ds) := by
  induction ds using List.reverseRecOn with
  | nil => exact absurd rfl hne
  | append_singleton ds c ih =>
    have hc : c.isDigit = true := hall c (by simp)
    rw [digitsValue_snoc]
    by_cases hds : ds = []
    · subst hds
      simpa [digitsValue] using Digits.one hc
    · exact .snoc (ih hds fun d hd => hall d (List.mem_append_left _ hd)) hc

theorem Digits.not_plus (hd : Digits ('+' :: ds) n) : False := by
  have := hd.isDigit '+' (List.mem_cons_self ..)
  exact absurd this (by decide)

theorem numeral?_eq_some_iff : numeral? maxNumber s = some n ↔ Numeral s n := by
  -- What stands behind the sign decides.
  have hdigits : ∀ ds : List Char,
      (if ds ≠ [] ∧ ds.all Char.isDigit ∧ digitsValue ds < maxNumber then some (digitsValue ds) else none) = some n ↔
        Digits ds n ∧ n < 2 ^ 32 := by
    intro ds
    constructor
    · intro h
      split at h
      · rename_i hds
        obtain ⟨hne, hall, hlt⟩ := hds
        cases h
        exact ⟨digits_of_isDigit hne (List.all_eq_true.1 hall), hlt⟩
      · cases h
    · rintro ⟨hd, hlt⟩
      rw [hd.value, if_pos ⟨hd.ne_nil, List.all_eq_true.2 hd.isDigit, hlt⟩]
  simp only [numeral?]
  split
  · rename_i ds
    refine (hdigits ds).trans ⟨fun hd => .signed hd.1 hd.2, fun hs => ?_⟩
    cases hs with
    | plain hd => exact hd.not_plus.elim
    | signed hd hlt => exact ⟨hd, hlt⟩
  · rename_i hplus
    refine (hdigits s).trans ⟨fun hd => .plain hd.1 hd.2, fun hs => ?_⟩
    cases hs with
    | plain hd hlt => exact ⟨hd, hlt⟩
    | signed => exact absurd rfl (hplus _)

theorem Numeral.exists_digits (hn : Numeral s n) : ∃ ds, Digits ds n ∧ (s = ds ∨ s = '+' :: ds) ∧ n < 2 ^ 32 := by
  cases hn with
  | plain hd hlt => exact ⟨s, hd, Or.inl rfl, hlt⟩
  | signed hd hlt => exact ⟨_, hd, Or.inr rfl, hlt⟩

theorem Numeral.ne_nil (hn : Numeral s n) : s ≠ [] := by
  obtain ⟨ds, hd, rfl | rfl, -⟩ := hn.exists_digits
  · exact hd.ne_nil
  · exact List.cons_ne_nil _ _

theorem Numeral.chars (hn : Numeral s n) : ∀ c ∈ s, c.isDigit = true ∨ c = '+' := by
  obtain ⟨ds, hd, rfl | rfl, -⟩ := hn.exists_digits
  · exact fun c hc => Or.inl (hd.isDigit c hc)
  · intro c hc
    rcases List.mem_cons.1 hc with rfl | hc
    · exact Or.inr rfl
    · exact Or.inl (hd.isDigit c hc)

/-- No character of a numeral is a blank or a cross. -/
theorem Numeral.plain_chars (hn : Numeral s n) : ∀ c ∈ s, Text.isBlank c = false ∧ isCross c = false := by
  intro c hc
  rcases hn.chars c hc with hdigit | rfl
  · exact ⟨(plain_of_isDigit hdigit).1, (plain_of_isDigit hdigit).2.1⟩
  · decide

/-! ## Blanks -/

theorem isCross_of_isBlank (hc : Text.isBlank c = true) : isCross c = false := by
  cases hx : isCross c with
  | false => rfl
  | true =>
    have hcases : c = 'x' ∨ c = 'X' := by simpa [isCross] using hx
    rcases hcases with rfl | rfl <;> exact absurd hc (by decide)

theorem blanks_nil : Blanks [] := fun _ hc => absurd hc List.not_mem_nil

theorem blanks_single {c : Char} (hc : Text.isBlank c = true) : Blanks [c] := List.forall_mem_singleton.2 hc

theorem blanks_append : Blanks (s ++ t) ↔ Blanks s ∧ Blanks t := by
  unfold Blanks
  rw [List.forall_mem_append]

theorem dropWhile_blanks (hs : Blanks s) (ht : ∀ c, t.head? = some c → Text.isBlank c = false) :
    (s ++ t).dropWhile Text.isBlank = t := by
  rw [List.dropWhile_append_of_pos hs]
  cases t with
  | nil => rfl
  | cons c t => rw [List.dropWhile_cons_of_neg (by simp [ht c rfl])]

theorem trimmed_trim (s : List Char) : Trimmed s (Text.trim s) := by
  have hhead : ∀ u : List Char, ∀ c, (u.dropWhile Text.isBlank).head? = some c → Text.isBlank c = false := by
    intro u c hc
    have := List.head?_dropWhile_not Text.isBlank u
    rw [hc] at this
    simpa using this
  have hblanks : ∀ u : List Char, Blanks (u.takeWhile Text.isBlank) := fun u c hc => List.mem_takeWhile_imp hc
  have hback : s.dropWhile Text.isBlank =
      Text.trim s ++ (((s.dropWhile Text.isBlank).reverse.takeWhile Text.isBlank)).reverse := by
    rw [Text.trim, ← List.reverse_append, List.takeWhile_append_dropWhile, List.reverse_reverse]
  refine ⟨⟨s.takeWhile Text.isBlank, (((s.dropWhile Text.isBlank).reverse.takeWhile Text.isBlank)).reverse, ?_,
    hblanks s, fun c hc => hblanks _ c (List.mem_reverse.1 hc)⟩, fun c hc => ?_, fun c hc => ?_⟩
  · rw [List.append_assoc, ← hback, List.takeWhile_append_dropWhile]
  · refine hhead s c ?_
    rw [hback, List.head?_append, hc]
    rfl
  · rw [Text.trim, List.getLast?_reverse] at hc
    exact hhead (s.dropWhile Text.isBlank).reverse c hc

theorem trim_of_trimmed (ht : Trimmed s t) : Text.trim s = t := by
  obtain ⟨⟨a, b, rfl, ha, hb⟩, hhead, hlast⟩ := ht
  by_cases hnil : t = []
  · subst hnil
    have hall : Blanks (a ++ [] ++ b) := blanks_append.2 ⟨blanks_append.2 ⟨ha, blanks_nil⟩, hb⟩
    rw [Text.trim, List.dropWhile_eq_nil_iff.2 hall]
    rfl
  · have hfront : ∀ c, (t ++ b).head? = some c → Text.isBlank c = false := by
      intro c hc
      rw [List.head?_append_of_ne_nil _ hnil] at hc
      exact hhead c hc
    have hback : ∀ c, t.reverse.head? = some c → Text.isBlank c = false := by
      intro c hc
      rw [List.head?_reverse] at hc
      exact hlast c hc
    rw [Text.trim, List.append_assoc, dropWhile_blanks ha hfront, List.reverse_append,
      dropWhile_blanks (fun c hc => hb c (List.mem_reverse.1 hc)) hback, List.reverse_reverse]

theorem trim_eq_iff : Text.trim s = t ↔ Trimmed s t :=
  ⟨fun h => h ▸ trimmed_trim s, trim_of_trimmed⟩

theorem trimmed_of_numeral {a b : List Char} (ha : Blanks a) (hb : Blanks b) (hn : Numeral t n) :
    Trimmed (a ++ t ++ b) t :=
  ⟨⟨a, b, rfl, ha, hb⟩, fun c hc => (hn.plain_chars c (List.mem_of_mem_head? hc)).1,
    fun c hc => (hn.plain_chars c (List.mem_of_mem_getLast? hc)).1⟩

theorem alone_iff : Alone s n ↔ Numeral (Text.trim s) n := by
  constructor
  · rintro ⟨a, t, b, rfl, ha, hb, hn⟩
    rwa [trim_of_trimmed (trimmed_of_numeral ha hb hn)]
  · intro hn
    obtain ⟨a, b, hs, ha, hb⟩ := (trimmed_trim s).around
    exact ⟨a, _, b, hs, ha, hb, hn⟩

/-! ## What the reader makes of a form -/

theorem isCross_iff : isCross x = true ↔ x = 'x' ∨ x = 'X' := by
  simp [isCross]

/-- There is no cross in a numeral and the blanks around it. -/
theorem Alone.no_cross (ha : Alone s n) : ∀ c ∈ s, isCross c = false := by
  obtain ⟨a, t, b, rfl, ha, hb, hn⟩ := ha
  intro c hc
  rw [List.mem_append, List.mem_append] at hc
  rcases hc with (hc | hc) | hc
  · exact isCross_of_isBlank (ha c hc)
  · exact (hn.plain_chars c hc).2
  · exact isCross_of_isBlank (hb c hc)

/-- The text up to the first cross and what follows. -/
theorem span_cross (hl : ∀ c ∈ l, isCross c = false) (hx : isCross x = true) (r : List Char) :
    (l ++ x :: r).span (fun c => !isCross c) = (l, x :: r) := by
  have hall : ∀ c ∈ l, (!isCross c) = true := fun c hc => by rw [hl c hc]; rfl
  rw [List.span_eq_takeWhile_dropWhile, List.takeWhile_append_of_pos hall, List.dropWhile_append_of_pos hall,
    List.takeWhile_cons_of_neg (by simp [hx]), List.dropWhile_cons_of_neg (by simp [hx]), List.append_nil]

theorem eq_of_span (hs : s.span (fun c => !isCross c) = (l, x :: r)) : s = l ++ x :: r ∧ isCross x = true := by
  rw [List.span_eq_takeWhile_dropWhile, Prod.mk.injEq] at hs
  obtain ⟨hl, hr⟩ := hs
  have hhead := List.head?_dropWhile_not (fun c => !isCross c) s
  rw [hr] at hhead
  exact ⟨by rw [← hl, ← hr, List.takeWhile_append_dropWhile], by simpa using hhead⟩

theorem span_no_cross (hs : ∀ c ∈ s, isCross c = false) : s.span (fun c => !isCross c) = (s, []) := by
  have hall : ∀ c ∈ s, (!isCross c) = true := fun c hc => by rw [hs c hc]; rfl
  rw [List.span_eq_takeWhile_dropWhile, List.takeWhile_eq_self_iff.2 hall, List.dropWhile_eq_nil_iff.2 hall]

theorem parse_of_alone (ha : Alone s n) : parse s = ofEdge n := by
  have hn := alone_iff.1 ha
  rw [parse, span_no_cross fun c hc => (hn.plain_chars c hc).2]
  simp only [numeral?_eq_some_iff.2 hn]

/-- The blanks around a pair are those in front of its first numeral and behind its second. -/
theorem trimmed_of_pair {a b c d t u : List Char} (ha : Blanks a) (hd : Blanks d) (ht : Numeral t w) (hu : Numeral u h) :
    Trimmed ((a ++ t ++ b) ++ x :: (c ++ u ++ d)) ((t ++ b) ++ x :: (c ++ u)) := by
  refine ⟨⟨a, d, by simp, ha, hd⟩, fun e he => ?_, fun e he => ?_⟩
  · rw [List.append_assoc, List.head?_append_of_ne_nil _ ht.ne_nil] at he
    exact (ht.plain_chars e (List.mem_of_mem_head? he)).1
  · rw [← List.cons_append, ← List.append_assoc, List.getLast?_append_of_ne_nil _ hu.ne_nil] at he
    exact (hu.plain_chars e (List.mem_of_mem_getLast? he)).1

theorem parse_of_pair (hp : Pair s w h) : parse s = ofPair w h := by
  obtain ⟨l, x, r, rfl, hx, hl, hr⟩ := hp
  have hcross : ∀ c ∈ l, isCross c = false := hl.no_cross
  obtain ⟨a, t, b, rfl, ha, hb, ht⟩ := hl
  obtain ⟨c, u, d, rfl, hc, hd, hu⟩ := hr
  have hfirst : Text.trim (t ++ b) = t := trim_of_trimmed (trimmed_of_numeral (a := []) blanks_nil hb ht)
  have hsecond : Text.trim (c ++ u) = u := by
    have := trim_of_trimmed (trimmed_of_numeral (b := []) hc blanks_nil hu)
    rwa [List.append_nil] at this
  have hspan := span_cross (l := t ++ b) (fun e he => hcross e (by simp only [List.mem_append] at he ⊢; tauto))
    (isCross_iff.2 hx) (c ++ u)
  rw [parse, trim_of_trimmed (trimmed_of_pair ha hd ht hu), hspan]
  simp only [hfirst, hsecond, numeral?_eq_some_iff.2 ht, numeral?_eq_some_iff.2 hu]

/-- What is not malformed has a form. -/
theorem parse_of_no_form (ha : ∀ n, ¬ Alone s n) (hp : ∀ w h, ¬ Pair s w h) :
    parse s = .error (.malformed (Text.trim s)) := by
  have hnone : ∀ t : List Char, (∀ n, ¬ Numeral t n) → numeral? maxNumber t = none := by
    intro t ht
    rw [Option.eq_none_iff_forall_ne_some]
    exact fun n hn => ht n (numeral?_eq_some_iff.1 hn)
  unfold parse
  dsimp only
  split
  · simp only [hnone (Text.trim s) fun n hn => ha n (alone_iff.2 hn)]
  · rename_i l x r hspan
    split
    · rename_i w h hw hh
      -- The numerals on both sides of the first cross, and the blanks around all of it, are a pair.
      exfalso
      obtain ⟨a, b, hs, ha', hb'⟩ := (trimmed_trim s).around
      obtain ⟨hsplit, hx⟩ := eq_of_span hspan
      obtain ⟨a₁, b₁, hl, ha₁, hb₁⟩ := (trimmed_trim l).around
      obtain ⟨a₂, b₂, hr, ha₂, hb₂⟩ := (trimmed_trim r).around
      refine hp w h ⟨a ++ l, x, r ++ b, by rw [hs, hsplit]; simp, isCross_iff.1 hx, ?_, ?_⟩
      · exact ⟨a ++ a₁, Text.trim l, b₁, by rw [List.append_assoc a, List.append_assoc a, ← hl],
          blanks_append.2 ⟨ha', ha₁⟩, hb₁, numeral?_eq_some_iff.1 hw⟩
      · exact ⟨a₂, Text.trim r, b₂ ++ b, by rw [← List.append_assoc, ← hr], ha₂,
          blanks_append.2 ⟨hb₂, hb'⟩, numeral?_eq_some_iff.1 hh⟩
    · rfl

/-- A text is judged by its form, or it has none. -/
theorem reading_cases (s : List Char) :
    (∃ n, Alone s n ∧ parse s = ofEdge n) ∨ (∃ w h, Pair s w h ∧ parse s = ofPair w h) ∨
    (∀ n, ¬ Alone s n) ∧ (∀ w h, ¬ Pair s w h) ∧ parse s = .error (.malformed (Text.trim s)) := by
  by_cases ha : ∃ n, Alone s n
  · obtain ⟨n, ha⟩ := ha
    exact Or.inl ⟨n, ha, parse_of_alone ha⟩
  · by_cases hp : ∃ w h, Pair s w h
    · obtain ⟨w, h, hp⟩ := hp
      exact Or.inr (Or.inl ⟨w, h, hp, parse_of_pair hp⟩)
    · have ha' : ∀ n, ¬ Alone s n := fun n hn => ha ⟨n, hn⟩
      have hp' : ∀ w h, ¬ Pair s w h := fun w h hwh => hp ⟨w, h, hwh⟩
      exact Or.inr (Or.inr ⟨ha', hp', parse_of_no_form ha' hp'⟩)

/-! ## What keeps a text from having a form -/

theorem le_foldl_digits (ds : List Char) (k : Nat) : k ≤ ds.foldl (fun n c => 10 * n + (c.toNat - 48)) k := by
  induction ds generalizing k with
  | nil => exact Nat.le_refl k
  | cons c ds ih =>
    have hstep : k ≤ 10 * k + (c.toNat - 48) := by omega
    exact Nat.le_trans hstep (ih _)

theorem foldl_digits_mono (ds : List Char) {k m : Nat} (hkm : k ≤ m) :
    ds.foldl (fun n c => 10 * n + (c.toNat - 48)) k ≤ ds.foldl (fun n c => 10 * n + (c.toNat - 48)) m := by
  induction ds generalizing k m with
  | nil => exact hkm
  | cons c ds ih =>
    have hstep : 10 * k + (c.toNat - 48) ≤ 10 * m + (c.toNat - 48) := by omega
    exact ih hstep

/-- More digits on either side do not make a number smaller. -/
theorem digitsValue_le (a ds b : List Char) : digitsValue ds ≤ digitsValue (a ++ ds ++ b) := by
  simp only [digitsValue, List.foldl_append]
  exact Nat.le_trans (foldl_digits_mono ds (Nat.zero_le _)) (le_foldl_digits b _)

theorem not_isDigit_of_isBlank (hc : Text.isBlank c = true) : c.isDigit = false := by
  cases hd : c.isDigit with
  | false => rfl
  | true =>
    rw [(plain_of_isDigit hd).1] at hc
    cases hc

/-- The digits of a text are those of its numeral. -/
theorem Alone.filter_isDigit (ha : Alone s n) : n < 2 ^ 32 ∧ digitsValue (s.filter Char.isDigit) = n := by
  obtain ⟨a, t, b, rfl, ha, hb, hn⟩ := ha
  have hblank : ∀ u : List Char, Blanks u → u.filter Char.isDigit = [] := by
    intro u hu
    rw [List.filter_eq_nil_iff]
    intro c hc
    rw [not_isDigit_of_isBlank (hu c hc)]
    simp
  obtain ⟨ds, hd, ht, hlt⟩ := hn.exists_digits
  have hfilter : t.filter Char.isDigit = ds := by
    have hself : ds.filter Char.isDigit = ds := List.filter_eq_self.2 hd.isDigit
    rcases ht with rfl | rfl
    · exact hself
    · rw [List.filter_cons_of_neg (by decide), hself]
  rw [List.filter_append, List.filter_append, hblank a ha, hblank b hb, hfilter, List.nil_append, List.append_nil]
  exact ⟨hlt, hd.value⟩

theorem not_alone_of_spoiledSide (hs : SpoiledSide s) (n : Nat) : ¬ Alone s n := by
  intro ha
  cases hs with
  | missing hblank =>
    obtain ⟨a, t, b, rfl, -, -, hn⟩ := ha
    obtain ⟨c, t', rfl⟩ := List.exists_cons_of_ne_nil hn.ne_nil
    have hc := (hn.plain_chars c (List.mem_cons_self ..)).1
    rw [hblank c (by simp)] at hc
    cases hc
  | minus hmem =>
    obtain ⟨a, t, b, rfl, ha, hb, hn⟩ := ha
    rw [List.mem_append, List.mem_append] at hmem
    rcases hmem with (hmem | hmem) | hmem
    · exact absurd (ha _ hmem) (by decide)
    · rcases hn.chars _ hmem with h | h <;> exact absurd h (by decide)
    · exact absurd (hb _ hmem) (by decide)
  | @inner a d b c e hc hd hne he =>
    obtain ⟨a', t, b', heq, ha', hb', hn⟩ := ha
    -- The numeral begins in front of these blanks and ends behind them, so it has them in it.
    have hsub : ∃ k m, t = k ++ d ++ m := by
      have hfront : (a ++ [c]) ++ (d ++ e :: b) = a' ++ (t ++ b') := by
        rw [← List.append_assoc a', ← heq]
        simp
      rcases List.append_eq_append_iff.1 hfront with ⟨k, rfl, -⟩ | ⟨k, -, hk⟩
      · rw [ha' c (by simp)] at hc
        cases hc
      · rw [← List.append_assoc] at hk
        rcases List.append_eq_append_iff.1 hk with ⟨m, -, hm⟩ | ⟨m, ht, -⟩
        · rw [hb' e (by simp [hm])] at he
          cases he
        · exact ⟨k, m, ht⟩
    obtain ⟨k, m, rfl⟩ := hsub
    obtain ⟨f, d', rfl⟩ := List.exists_cons_of_ne_nil hne
    have hf := (hn.plain_chars f (by simp)).1
    rw [hd f (List.mem_cons_self ..)] at hf
    cases hf
  | @large a ds b m hd hm =>
    obtain ⟨hlt, hvalue⟩ := ha.filter_isDigit
    rw [List.filter_append, List.filter_append, List.filter_eq_self.2 hd.isDigit] at hvalue
    have hle := digitsValue_le (a.filter Char.isDigit) ds (b.filter Char.isDigit)
    rw [hvalue, hd.value] at hle
    omega

/-- A text splits into the sides of a pair in one way. -/
theorem alone_of_pair (hp : Pair (l ++ x :: r) w h) (hx : x = 'x' ∨ x = 'X') : Alone l w ∧ Alone r h := by
  obtain ⟨l', x', r', heq, -, hl, hr⟩ := hp
  have hcross := isCross_iff.2 hx
  rcases List.append_eq_append_iff.1 heq with ⟨k, hl', hk⟩ | ⟨k, hl', hk⟩
  · cases k with
    | nil =>
      rw [List.append_nil] at hl'
      rw [List.nil_append, List.cons.injEq] at hk
      rw [← hl', hk.2]
      exact ⟨hl, hr⟩
    | cons y k =>
      rw [List.cons_append, List.cons.injEq] at hk
      have := hl.no_cross x (by rw [hl', hk.1]; simp)
      rw [hcross] at this
      cases this
  · cases k with
    | nil =>
      rw [List.append_nil] at hl'
      rw [List.nil_append, List.cons.injEq] at hk
      rw [hl', ← hk.2]
      exact ⟨hl, hr⟩
    | cons y k =>
      rw [List.cons_append, List.cons.injEq] at hk
      have := hr.no_cross x (by rw [hk.2]; simp)
      rw [hcross] at this
      cases this

theorem no_form_of_spoiled (hs : Spoiled s) : (∀ n, ¬ Alone s n) ∧ ∀ w h, ¬ Pair s w h := by
  have hnot : ∀ {l r : List Char} {x : Char}, x = 'x' ∨ x = 'X' → ∀ n, ¬ Alone (l ++ x :: r) n := by
    intro l r x hx n ha
    have := ha.no_cross x (by simp)
    rw [isCross_iff.2 hx] at this
    cases this
  cases hs with
  | alone hx hX hside =>
    refine ⟨not_alone_of_spoiledSide hside, ?_⟩
    rintro w h ⟨l, x, r, rfl, rfl | rfl, -, -⟩
    · exact hx (by simp)
    · exact hX (by simp)
  | left hx hside => exact ⟨hnot hx, fun w h hp => not_alone_of_spoiledSide hside w (alone_of_pair hp hx).1⟩
  | right hx hside => exact ⟨hnot hx, fun w h hp => not_alone_of_spoiledSide hside h (alone_of_pair hp hx).2⟩
  | crosses hx hy => exact ⟨hnot hx, fun w h hp => hnot hy h (alone_of_pair hp hx).2⟩

end IconMaker.Size
