import IconMaker.Proofs.Toml.Layout

/-
  IconMaker.Proofs.Toml.Numbers — the notation of numbers, and that the readers follow it.

  `Number` says which texts are numbers and what they stand for. It does not say where a number
  stops: that is known from what follows, which has to be what may follow a value (`Ended`).
  A reader takes a number from the text exactly if the text begins with one that is written so
  (`number?_of_number`, `number_of_number?`).
-/

namespace IconMaker.Toml

variable {s r t ds : List Char} {c : Char} {p : Char → Bool} {negative : Bool} {x : Scalar}

/-! ## What follows a value -/

/-- What ends a value, blanks apart: the end of the line, a comment, a comma or a bracket. -/
def isStop (c : Char) : Bool := c == '\n' || c == '\r' || c == '#' || c == ',' || c == ']' || c == '}'

/-- A value may end where this text begins. -/
def Ended (r : List Char) : Prop := skipWhite r = [] ∨ begins isStop (skipWhite r) = true

/-- The characters that may stand right behind a value. -/
def limits : List Char := [' ', '\t', '\n', '\r', '#', ',', ']', '}']

theorem mem_limits_iff : c ∈ limits ↔ isWhite c = true ∨ isStop c = true := by
  simp [limits, isWhite, isStop, or_assoc]

/-- What stands behind a value is none of the characters of a value. -/
theorem Ended.not_begins (h : Ended r) (hp : limits.all (fun c => !p c) = true) : begins p r = false := by
  rcases r with _ | ⟨c, r⟩
  · rfl
  have hc : c ∈ limits := by
    rw [mem_limits_iff]
    by_cases hw : isWhite c = true
    · exact Or.inl hw
    · have hskip : skipWhite (c :: r) = c :: r := skipWhite_eq_self (by simpa using hw)
      rcases h with h | h
      · rw [hskip] at h
        cases h
      · rw [hskip] at h
        exact Or.inr h
  simpa using List.all_eq_true.1 hp c hc

theorem Ended.not_digit (h : Ended r) : begins isDigit r = false := h.not_begins rfl

theorem ended_of_white (h : White s r) (hr : Ended r) : Ended s := by
  unfold Ended
  rw [skipWhite_of_white h]
  exact hr

theorem ended_of_stop (h : begins isStop r = true) : Ended r := by
  have hw : begins isWhite r = false := by
    refine not_begins h ?_
    intro c hc
    simp only [isStop, Bool.or_eq_true, beq_iff_eq] at hc
    rcases hc with ((((rfl | rfl) | rfl) | rfl) | rfl) | rfl <;> rfl
  right
  rwa [skipWhite_eq_self hw]

theorem Ended.of_lineEnd (h : LineEnd s r) : Ended s := by
  obtain ⟨s₁, s₂, hw, hc, he⟩ := h
  refine ended_of_white hw ?_
  rcases hc with rfl | ⟨t, -, rfl⟩
  · cases he with
    | text => exact Or.inl rfl
    | line hb => cases hb <;> exact ended_of_stop rfl
  · exact ended_of_stop rfl

theorem Ended.of_gap (h : Gap s r) (hr : begins isStop r = true) : Ended s := by
  induction h with
  | done => exact ended_of_stop hr
  | line hb => cases hb <;> exact ended_of_stop rfl
  | comment hc =>
    obtain ⟨t, -, rfl⟩ := hc
    exact ended_of_stop rfl
  | white hc _ ih => exact ended_of_white (.cons hc (.refl _)) (ih hr)

/-! ## Digits -/

/-- Digits with single underscores between them, and the digits alone. -/
inductive Digits (p : Char → Bool) : List Char → List Char → Prop
  | one {d : Char} : p d = true → Digits p [d] [d]
  | more {d : Char} {t ds : List Char} : p d = true → Digits p t ds → Digits p (d :: t) (d :: ds)
  | apart {d : Char} {t ds : List Char} : p d = true → Digits p t ds → Digits p (d :: '_' :: t) (d :: ds)

/-- Neither a digit nor an underscore follows. -/
def Over (p : Char → Bool) (r : List Char) : Prop := begins p r = false ∧ begins (· == '_') r = false

theorem digitsAfter_eq_nil (h : Over p r) : digitsAfter p r = ([], r) := by
  obtain ⟨hp, hu⟩ := h
  unfold digitsAfter
  split
  · simp at hu
  · simp only [begins_cons] at hp
    simp [hp]
  · rfl

theorem digitsAfter_digit (hd : p c = true) (hu : p '_' = false) (s : List Char) :
    digitsAfter p (c :: s) = (c :: (digitsAfter p s).1, (digitsAfter p s).2) := by
  have hne : c ≠ '_' := by
    rintro rfl
    rw [hd] at hu
    cases hu
  rw [digitsAfter]
  · simp [hd]
  · intro _ _ h
    exact absurd h hne

/-- Digits behind an earlier digit. -/
theorem digitsAfter_of_digits (hu : p '_' = false) (hr : Over p r) (h : Digits p t ds) :
    digitsAfter p (t ++ r) = (ds, r) ∧ digitsAfter p ('_' :: (t ++ r)) = (ds, r) := by
  induction h with
  | @one d hd =>
    constructor
    · rw [List.cons_append, List.nil_append, digitsAfter_digit hd hu, digitsAfter_eq_nil hr]
    · rw [List.cons_append, List.nil_append, digitsAfter]
      simp [hd, digitsAfter_eq_nil hr]
  | @more d t ds hd _ ih =>
    constructor
    · rw [List.cons_append, digitsAfter_digit hd hu, ih.1]
    · rw [List.cons_append, digitsAfter]
      simp [hd, ih.1]
  | @apart d t ds hd _ ih =>
    constructor
    · rw [List.cons_append, List.cons_append, digitsAfter_digit hd hu, ih.2]
    · rw [List.cons_append, List.cons_append, digitsAfter]
      simp [hd, ih.2]

theorem digits1?_of_digits (hu : p '_' = false) (hr : Over p r) (h : Digits p t ds) :
    digits1? p (t ++ r) = some (ds, r) := by
  cases h with
  | one hd => simp [digits1?, hd, digitsAfter_eq_nil hr]
  | more hd h => simp [digits1?, hd, (digitsAfter_of_digits hu hr h).1]
  | apart hd h => simp [digits1?, hd, (digitsAfter_of_digits hu hr h).2]

/-- What is read behind a digit makes digits with it. -/
theorem digits_of_digitsAfter {d : Char} (hd : p d = true) (h : digitsAfter p s = (ds, r)) :
    ∃ t, Digits p (d :: t) (d :: ds) ∧ s = t ++ r := by
  induction s using digitsAfter.induct p generalizing d ds with
  | case1 e s he ih =>
    simp only [digitsAfter, if_pos he] at h
    cases h
    obtain ⟨t, ht, hs⟩ := ih he rfl
    exact ⟨'_' :: e :: t, .apart hd ht, by rw [List.cons_append, List.cons_append, ← hs]⟩
  | case2 e s he =>
    simp only [digitsAfter, if_neg he] at h
    cases h
    exact ⟨[], .one hd, rfl⟩
  | case3 e s hne he ih =>
    rw [digitsAfter] at h
    · simp only [if_pos he] at h
      cases h
      obtain ⟨t, ht, hs⟩ := ih he rfl
      exact ⟨e :: t, .more hd ht, by rw [List.cons_append, ← hs]⟩
    · exact hne
  | case4 e s hne he =>
    rw [digitsAfter] at h
    · simp only [if_neg he] at h
      cases h
      exact ⟨[], .one hd, rfl⟩
    · exact hne
  | case5 =>
    cases h
    exact ⟨[], .one hd, rfl⟩

theorem digits_of_digits1? (h : digits1? p s = some (ds, r)) : ∃ t, Digits p t ds ∧ s = t ++ r := by
  unfold digits1? at h
  split at h
  · rename_i d s
    split at h
    · rename_i hd
      cases h
      obtain ⟨t, ht, hs⟩ := digits_of_digitsAfter hd (Prod.ext rfl rfl)
      exact ⟨d :: t, ht, by rw [List.cons_append, ← hs]⟩
    · cases h
  · cases h

/-! ## Numbers -/

inductive Sign : List Char → Bool → Prop
  | none : Sign [] false
  | plus : Sign ['+'] false
  | minus : Sign ['-'] true

/-- The digits of a decimal number before its point: no zero in front of others. -/
inductive Whole : List Char → List Char → Prop
  | zero : Whole ['0'] ['0']
  | digits {d : Char} {t ds : List Char} : d ≠ '0' → Digits isDigit t (d :: ds) → Whole t (d :: ds)

def signed (negative : Bool) (n : Nat) : Int := if negative then -n else n

inductive Exponent : List Char → Int → Prop
  | mk {e : Char} {σ t ds : List Char} {negative : Bool} : isExponentMark e = true → Sign σ negative →
      Digits isDigit t ds → Exponent (e :: (σ ++ t)) (signed negative (inBase 10 ds))

/-- The digits of the fraction, and the exponent; one of the two is there. -/
inductive Tail : List Char → List Char → Int → Prop
  | fraction {t ds : List Char} : Digits isDigit t ds → Tail ('.' :: t) ds 0
  | exponent {t : List Char} {e : Int} : Exponent t e → Tail t [] e
  | both {t t' ds : List Char} {e : Int} : Digits isDigit t ds → Exponent t' e → Tail ('.' :: (t ++ t')) ds e

/-- The letter of a base other than ten, the base, and its digits. -/
inductive Base : Char → Nat → (Char → Bool) → Prop
  | sixteen : Base 'x' 16 fun c => (hexValue? c).isSome
  | eight : Base 'o' 8 fun c => '0' ≤ c && c ≤ '7'
  | two : Base 'b' 2 fun c => c == '0' || c == '1'

/-- A number; `overflow` allows floats that are rounded to plus infinity. -/
inductive Number (overflow : Bool) : List Char → Scalar → Prop
  | infinity {σ : List Char} {negative : Bool} : Sign σ negative →
      Number overflow (σ ++ ['i', 'n', 'f']) (.float (.infinite negative))
  | nan {σ : List Char} {negative : Bool} : Sign σ negative → Number overflow (σ ++ ['n', 'a', 'n']) (.float .nan)
  | integer {σ t ds : List Char} {negative : Bool} : Sign σ negative → Whole t ds →
      fits (signed negative (inBase 10 ds)) = true → Number overflow (σ ++ t) (.integer (signed negative (inBase 10 ds)))
  | float {σ t t' ds fs : List Char} {e : Int} {negative : Bool} : Sign σ negative → Whole t ds → Tail t' fs e →
      (Binary64.ofDecimal negative (ds ++ fs) (e - fs.length) = .infinite false → overflow = true) →
      Number overflow (σ ++ (t ++ t')) (.float (.ofDecimal negative (ds ++ fs) (e - fs.length)))
  | based {b : Char} {n : Nat} {p : Char → Bool} {t ds : List Char} : Base b n p → Digits p t ds →
      fits (inBase n ds) = true → Number overflow ('0' :: b :: t) (.integer (inBase n ds))

/-! ### Reading what is written -/

def isSign (c : Char) : Bool := c == '+' || c == '-'

theorem sign_of_sign {σ : List Char} (h : Sign σ negative) (hs : begins isSign s = false) :
    sign (σ ++ s) = (negative, s) := by
  cases h with
  | none =>
    rw [List.nil_append]
    unfold sign
    split
    · simp [isSign] at hs
    · simp [isSign] at hs
    · rfl
  | plus => rfl
  | minus => rfl

theorem exists_sign (s : List Char) : ∃ σ, Sign σ (sign s).1 ∧ s = σ ++ (sign s).2 := by
  unfold sign
  split
  · exact ⟨_, .minus, rfl⟩
  · exact ⟨_, .plus, rfl⟩
  · exact ⟨_, .none, rfl⟩

theorem Digits.exists_cons (h : Digits p t ds) : ∃ d t' ds', t = d :: t' ∧ ds = d :: ds' ∧ p d = true := by
  cases h with
  | one hd | more hd | apart hd => exact ⟨_, _, _, rfl, rfl, hd⟩

theorem Whole.exists_cons (h : Whole t ds) : ∃ d t' ds', t = d :: t' ∧ ds = d :: ds' ∧ isDigit d = true := by
  cases h with
  | zero => exact ⟨_, _, _, rfl, rfl, rfl⟩
  | digits _ h =>
    obtain ⟨d, t', ds', rfl, hds, hd⟩ := h.exists_cons
    cases hds
    exact ⟨_, t', _, rfl, rfl, hd⟩

/-- A digit is none of the other characters with a meaning. -/
theorem isDigit_ne (h : isDigit c = true) {d : Char} (hd : isDigit d = false) : c ≠ d := by
  rintro rfl
  rw [h] at hd
  cases hd

theorem wholeDigits?_of_whole (h : Whole t ds) (hr : Over isDigit r) : wholeDigits? (t ++ r) = some (ds, r) := by
  cases h with
  | zero => rfl
  | @digits d t ds hne h =>
    obtain ⟨d', t', ds', rfl, hds, hd⟩ := h.exists_cons
    cases hds
    rw [wholeDigits?]
    · exact digits1?_of_digits rfl hr h
    · intro _ ht
      exact hne (List.cons.inj ht).1

theorem exponent?_of_exponent {e : Char} {n : Int} (h : Exponent (e :: t) n) (hr : Over isDigit r) :
    isExponentMark e = true ∧ exponent? (t ++ r) = some (n, r) := by
  generalize ht : e :: t = t' at h
  cases h with
  | @mk e σ t ds negative he hσ hd =>
    cases ht
    refine ⟨he, ?_⟩
    have hs : begins isSign (t ++ r) = false := by
      obtain ⟨d, t', ds', rfl, -, hd⟩ := hd.exists_cons
      have h₁ := isDigit_ne hd (d := '+') rfl
      have h₂ := isDigit_ne hd (d := '-') rfl
      simp [isSign, h₁, h₂]
    rw [List.append_assoc]
    unfold exponent?
    rw [sign_of_sign hσ hs]
    simp only [digits1?_of_digits rfl hr hd, Option.map_some, signed]

theorem Exponent.exists_cons {e : Int} (h : Exponent t e) : ∃ c t', t = c :: t' ∧ isExponentMark c = true := by
  cases h with
  | mk he => exact ⟨_, _, rfl, he⟩

theorem isExponentMark_ne (h : isExponentMark c = true) : c ≠ '.' ∧ isDigit c = false ∧ c ≠ '_' := by
  have hcases : c = 'e' ∨ c = 'E' := by simpa [isExponentMark] using h
  rcases hcases with rfl | rfl
  · exact ⟨by decide, rfl, by decide⟩
  · exact ⟨by decide, rfl, by decide⟩

theorem floatTail?_of_tail {e : Int} (h : Tail t ds e) (hr : Over isDigit r) (he : begins isExponentMark r = false) :
    floatTail? (t ++ r) = some (ds, e, r) := by
  cases h with
  | fraction hd =>
    simp only [List.cons_append, floatTail?, digits1?_of_digits rfl hr hd]
    rcases r with _ | ⟨c, r⟩
    · rfl
    · simp only [begins_cons] at he
      simp [he]
  | exponent hx =>
    obtain ⟨c, t', rfl, hc⟩ := hx.exists_cons
    obtain ⟨-, hn⟩ := exponent?_of_exponent hx hr
    rw [List.cons_append, floatTail?]
    · simp [hc, hn]
    · exact (isExponentMark_ne hc).1
  | @both t t' ds e hd hx =>
    obtain ⟨c, t', rfl, hc⟩ := hx.exists_cons
    obtain ⟨-, hn⟩ := exponent?_of_exponent hx hr
    have hover : Over isDigit (c :: (t' ++ r)) := by
      obtain ⟨-, hdigit, hu⟩ := isExponentMark_ne hc
      exact ⟨hdigit, by simpa using hu⟩
    have happ : '.' :: (t ++ c :: t') ++ r = '.' :: (t ++ c :: (t' ++ r)) := by simp
    rw [happ, floatTail?, digits1?_of_digits rfl hover hd]
    simp [hc, hn]

theorem Tail.exists_cons {e : Int} (h : Tail t ds e) :
    ∃ c t', t = c :: t' ∧ (c = '.' ∨ isExponentMark c = true) := by
  cases h with
  | fraction | both => exact ⟨_, _, rfl, Or.inl rfl⟩
  | exponent hx =>
    obtain ⟨c, t', rfl, hc⟩ := hx.exists_cons
    exact ⟨c, t', rfl, Or.inr hc⟩

theorem Ended.over (h : Ended r) : Over isDigit r := ⟨h.not_digit, h.not_begins rfl⟩

theorem Ended.not_tail (h : Ended r) : startsFloatTail r = false ∧ begins isExponentMark r = false := by
  constructor
  · have hb : begins (fun c => c == '.' || isExponentMark c) r = false := h.not_begins rfl
    cases r with
    | nil => rfl
    | cons c r => exact hb
  · exact h.not_begins rfl

/-- The sign of a number is told from its digits. -/
theorem begins_isSign_of_whole (h : Whole t ds) (r : List Char) : begins isSign (t ++ r) = false := by
  obtain ⟨d, t', ds', rfl, -, hd⟩ := h.exists_cons
  have h₁ := isDigit_ne hd (d := '+') rfl
  have h₂ := isDigit_ne hd (d := '-') rfl
  simp [isSign, h₁, h₂]

/-- A number that begins with digits, behind its sign. -/
theorem decimal?_of_whole {σ : List Char} (hσ : Sign σ negative) (h : Whole t ds) (r : List Char) :
    decimal? (σ ++ (t ++ r)) =
      match wholeDigits? (t ++ r) with
      | none => none
      | some (ds, r') =>
        if startsFloatTail r' then
          match floatTail? r' with
          | none => none
          | some (fs, e, r'') => float? (.ofDecimal negative (ds ++ fs) (e - fs.length)) r''
        else integer? (signed negative (inBase 10 ds)) r' := by
  unfold decimal?
  rw [sign_of_sign hσ (begins_isSign_of_whole h r)]
  obtain ⟨d, t', ds', rfl, -, hd⟩ := h.exists_cons
  have h₁ := isDigit_ne hd (d := 'i') rfl
  have h₂ := isDigit_ne hd (d := 'n') rfl
  dsimp only [List.cons_append]
  split
  · rename_i heq
    exact absurd (List.cons.inj heq).1 h₁
  · rename_i heq
    exact absurd (List.cons.inj heq).1 h₂
  · rfl

/-- No letter of a base follows a zero here, so the number is decimal. -/
theorem number?_eq_decimal? (h : ∀ b t n p, s = '0' :: b :: t → ¬ Base b n p) : number? s = decimal? s := by
  unfold number?
  split
  · exact absurd .sixteen (h _ _ _ _ rfl)
  · exact absurd .eight (h _ _ _ _ rfl)
  · exact absurd .two (h _ _ _ _ rfl)
  · rfl

theorem Base.ne {b : Char} {n : Nat} (h : Base b n p) :
    isDigit b = false ∧ b ≠ '.' ∧ isExponentMark b = false := by
  cases h <;> exact ⟨rfl, by decide, rfl⟩

/-- No letter of a base follows the digits of a decimal number. -/
theorem number?_of_whole {σ : List Char} (hσ : Sign σ negative) (h : Whole t ds)
    (hr : begins isDigit r = true ∨ ∀ b n p, r.head? = some b → ¬ Base b n p) :
    number? (σ ++ (t ++ r)) = decimal? (σ ++ (t ++ r)) := by
  refine number?_eq_decimal? ?_
  intro b t' n p heq hb
  cases hσ with
  | plus | minus => cases heq
  | none =>
    cases h with
    | zero =>
      have hhead : r.head? = some b := by
        rw [show r = b :: t' from (List.cons.inj heq).2]
        rfl
      rcases hr with hr | hr
      · rcases r with _ | ⟨c, r⟩
        · cases hr
        · cases hhead
          rw [begins_cons, hb.ne.1] at hr
          cases hr
      · exact hr b n p hhead hb
    | @digits d t ds hne h =>
      obtain ⟨d', t', ds', rfl, hds, -⟩ := h.exists_cons
      cases hds
      exact hne (List.cons.inj heq).1

theorem Ended.not_base (h : Ended r) {b : Char} {n : Nat} (hb : Base b n p) : r.head? ≠ some b := by
  intro hhead
  have hfalse : begins (fun c => c == b) r = false := by
    cases hb <;> exact h.not_begins rfl
  cases r with
  | nil => cases hhead
  | cons c r =>
    cases hhead
    simp at hfalse

theorem integer?_eq_some_iff {i : Int} {s : List Char} :
    integer? i s = some (x, r) ↔ fits i = true ∧ x = .integer i ∧ r = s := by
  unfold integer?
  cases hi : fits i with
  | false => simp
  | true =>
    simp only [if_true, Option.some.injEq, Prod.mk.injEq, true_and]
    constructor
    · rintro ⟨rfl, rfl⟩
      exact ⟨rfl, rfl⟩
    · rintro ⟨rfl, rfl⟩
      exact ⟨rfl, rfl⟩

theorem number?_of_integer {σ : List Char} (hσ : Sign σ negative) (ht : Whole t ds)
    (hfits : fits (signed negative (inBase 10 ds)) = true) (hr : Ended r) :
    number? (σ ++ (t ++ r)) = some (.integer (signed negative (inBase 10 ds)), r) := by
  rw [number?_of_whole hσ ht (Or.inr fun b n p hhead hb => hr.not_base hb hhead), decimal?_of_whole hσ ht,
    wholeDigits?_of_whole ht hr.over]
  simp only [hr.not_tail.1, Bool.false_eq_true, if_false]
  exact integer?_eq_some_iff.2 ⟨hfits, rfl, rfl⟩

theorem number?_of_float {σ t' fs : List Char} {e : Int} (hσ : Sign σ negative) (ht : Whole t ds) (htail : Tail t' fs e)
    (hfinite : Binary64.ofDecimal negative (ds ++ fs) (e - fs.length) ≠ .infinite false) (hr : Ended r) :
    number? (σ ++ (t ++ (t' ++ r))) = some (.float (.ofDecimal negative (ds ++ fs) (e - fs.length)), r) := by
  obtain ⟨c, t'', rfl, hc⟩ := htail.exists_cons
  have hstarts : startsFloatTail (c :: t'' ++ r) = true := by
    rcases hc with rfl | hc
    · rfl
    · simp [startsFloatTail, hc]
  have hover : Over isDigit (c :: t'' ++ r) := by
    rcases hc with rfl | hc
    · exact ⟨rfl, rfl⟩
    · obtain ⟨-, hdigit, hu⟩ := isExponentMark_ne hc
      exact ⟨hdigit, by simpa using hu⟩
  have hbase : ∀ b n p, (c :: t'' ++ r).head? = some b → ¬ Base b n p := by
    intro b n p hhead hb
    cases hhead
    rcases hc with rfl | hc
    · exact hb.ne.2.1 rfl
    · rw [hb.ne.2.2] at hc
      cases hc
  rw [number?_of_whole hσ ht (Or.inr hbase), decimal?_of_whole hσ ht, wholeDigits?_of_whole ht hover]
  simp only [hstarts, if_true, floatTail?_of_tail htail hr.over hr.not_tail.2, float?, if_neg hfinite]

theorem number?_of_based {b : Char} {n : Nat} (hb : Base b n p) (hd : Digits p t ds)
    (hfits : fits (inBase n ds) = true) (hr : Ended r) :
    number? ('0' :: b :: (t ++ r)) = some (.integer (inBase n ds), r) := by
  have hover : Over p r := by
    constructor
    · cases hb <;> exact hr.not_begins rfl
    · exact hr.over.2
  have hu : p '_' = false := by
    cases hb <;> rfl
  have hbased : number? ('0' :: b :: (t ++ r)) = based? n p (t ++ r) := by
    cases hb <;> rw [number?]
  rw [hbased, based?, digits1?_of_digits hu hover hd]
  rw [Option.bind_some]
  exact integer?_eq_some_iff.2 ⟨hfits, rfl, rfl⟩

theorem number?_of_number (h : Number false t x) (hr : Ended r) : number? (t ++ r) = some (x, r) := by
  cases h with
  | infinity hσ | nan hσ =>
    rw [List.append_assoc, number?_eq_decimal?]
    · unfold decimal?
      rw [sign_of_sign hσ rfl]
      rfl
    · intro b t n p heq
      cases hσ <;> cases heq
  | integer hσ ht hfits =>
    rw [List.append_assoc]
    exact number?_of_integer hσ ht hfits hr
  | float hσ ht htail hfinite =>
    rw [List.append_assoc, List.append_assoc]
    refine number?_of_float hσ ht htail ?_ hr
    intro heq
    cases hfinite heq
  | based hb hd hfits => exact number?_of_based hb hd hfits hr

/-! ### Writing what is read -/

theorem whole_of_wholeDigits? (h : wholeDigits? s = some (ds, r)) : ∃ t, Whole t ds ∧ s = t ++ r := by
  unfold wholeDigits? at h
  split at h
  · cases h
    exact ⟨_, .zero, rfl⟩
  · rename_i hne
    obtain ⟨t, ht, rfl⟩ := digits_of_digits1? h
    obtain ⟨d, t', ds', rfl, rfl, -⟩ := ht.exists_cons
    refine ⟨_, .digits ?_ ht, rfl⟩
    rintro rfl
    exact hne _ rfl

theorem exponent_of_exponent? {c : Char} {e : Int} (hc : isExponentMark c = true) (h : exponent? s = some (e, r)) :
    ∃ t, Exponent (c :: t) e ∧ s = t ++ r := by
  obtain ⟨σ, hσ, hs⟩ := exists_sign s
  unfold exponent? at h
  generalize sign s = y at h hσ hs
  obtain ⟨negative, s'⟩ := y
  obtain ⟨⟨ds, r'⟩, hx, hxe⟩ := Option.map_eq_some_iff.1 h
  obtain ⟨t, ht, htr⟩ := digits_of_digits1? hx
  cases hxe
  exact ⟨σ ++ t, .mk hc hσ ht, by rw [hs, htr, List.append_assoc]⟩

theorem tail_of_floatTail? {e : Int} (h : floatTail? s = some (ds, e, r)) : ∃ t, Tail t ds e ∧ s = t ++ r := by
  unfold floatTail? at h
  split at h
  · split at h
    · cases h
    · rename_i fs r' hfs
      obtain ⟨t, ht, rfl⟩ := digits_of_digits1? hfs
      split at h
      · rename_i c r''
        split at h
        · rename_i hc
          obtain ⟨⟨n, r'⟩, hy, hye⟩ := Option.map_eq_some_iff.1 h
          cases hye
          obtain ⟨t', ht', rfl⟩ := exponent_of_exponent? hc hy
          exact ⟨_, .both ht ht', by simp⟩
        · cases h
          exact ⟨_, .fraction ht, by simp⟩
      · cases h
        exact ⟨_, .fraction ht, by simp⟩
  · split at h
    · rename_i hc
      obtain ⟨⟨n, r'⟩, hy, hye⟩ := Option.map_eq_some_iff.1 h
      cases hye
      obtain ⟨t', ht', rfl⟩ := exponent_of_exponent? hc hy
      exact ⟨_, .exponent ht', by simp⟩
    · cases h
  · cases h

theorem number_of_decimal? (h : decimal? s = some (x, r)) : ∃ t, Number false t x ∧ s = t ++ r := by
  obtain ⟨σ, hσ, hs⟩ := exists_sign s
  unfold decimal? at h
  generalize sign s = y at h hσ hs
  obtain ⟨negative, s'⟩ := y
  dsimp only at h hσ hs
  subst hs
  split at h
  · cases h
    exact ⟨_, .infinity hσ, by simp⟩
  · cases h
    exact ⟨_, .nan hσ, by simp⟩
  · split at h
    · cases h
    · rename_i ds r' hds
      obtain ⟨t, ht, rfl⟩ := whole_of_wholeDigits? hds
      split at h
      · split at h
        · cases h
        · rename_i fs e r'' hfs
          obtain ⟨t', ht', rfl⟩ := tail_of_floatTail? hfs
          unfold float? at h
          split at h
          · cases h
          · rename_i hfinite
            cases h
            exact ⟨_, .float hσ ht ht' fun heq => absurd heq hfinite, by simp⟩
      · obtain ⟨hfits, rfl, rfl⟩ := integer?_eq_some_iff.1 h
        exact ⟨_, .integer hσ ht hfits, by simp⟩

theorem number_of_based? {b : Char} {n : Nat} (hb : Base b n p) (h : based? n p s = some (x, r)) :
    ∃ t, Number false t x ∧ '0' :: b :: s = t ++ r := by
  unfold based? at h
  obtain ⟨⟨ds, r'⟩, hy, hx⟩ := Option.bind_eq_some_iff.1 h
  obtain ⟨t, ht, rfl⟩ := digits_of_digits1? hy
  obtain ⟨hfits, rfl, rfl⟩ := integer?_eq_some_iff.1 hx
  exact ⟨_, .based hb ht hfits, rfl⟩

theorem number_of_number? (h : number? s = some (x, r)) : ∃ t, Number false t x ∧ s = t ++ r := by
  unfold number? at h
  split at h
  · exact number_of_based? .sixteen h
  · exact number_of_based? .eight h
  · exact number_of_based? .two h
  · exact number_of_decimal? h

end IconMaker.Toml
