import IconMaker.Toml.Grammar
import Mathlib.Data.List.TakeWhile

/-
  IconMaker.Proofs.Toml.Layout — blanks, line breaks and comments.

  The notation is given by relations between a text and what is left of it after the part
  that they describe: `White` (blanks), `Break` (one line break), `Comment`, `LineEnd` (all
  that may follow on a line), `Gap` (all that may stand between the items of an array). None
  of them says how much to take. The readers take as much as they can; where the text goes on
  with something else, that is the same (`skipWhite_eq_of_white`, `lineEnd?_eq_some_iff`,
  `skipGap_eq_of_gap`, `gap_skipGap`).
-/

namespace IconMaker.Toml

/-- Does the text begin with such a character? -/
def begins (p : Char → Bool) : List Char → Bool
  | c :: _ => p c
  | [] => false

@[simp] theorem begins_cons (p : Char → Bool) (c : Char) (s : List Char) : begins p (c :: s) = p c := rfl

theorem exists_of_begins {p : Char → Bool} {s : List Char} (h : begins p s = true) :
    ∃ c r, s = c :: r ∧ p c = true := by
  cases s with
  | nil => cases h
  | cons c r => exact ⟨c, r, rfl, h⟩

/-- A text that begins in one way does not begin in another. -/
theorem not_begins {p q : Char → Bool} {s : List Char} (h : begins p s = true)
    (hpq : ∀ c, p c = true → q c = false) : begins q s = false := by
  obtain ⟨c, r, rfl, hc⟩ := exists_of_begins h
  exact hpq c hc

variable {s s₁ s₂ r : List Char} {c : Char}

/-! ## Blanks -/

theorem isWhite_iff : isWhite c = true ↔ c = ' ' ∨ c = '\t' := by
  simp [isWhite]

def White (s r : List Char) : Prop := ∃ w, (∀ c ∈ w, isWhite c = true) ∧ s = w ++ r

namespace White

theorem refl (s : List Char) : White s s := ⟨[], by simp, rfl⟩

theorem cons (hc : isWhite c = true) (h : White s r) : White (c :: s) r := by
  obtain ⟨w, hw, rfl⟩ := h
  refine ⟨c :: w, ?_, rfl⟩
  intro d hd
  rcases List.mem_cons.1 hd with rfl | hd
  · exact hc
  · exact hw d hd

theorem suffix (h : White s r) : r <:+ s := by
  obtain ⟨w, -, rfl⟩ := h
  exact List.suffix_append w r

end White

theorem white_skipWhite (s : List Char) : White s (skipWhite s) :=
  ⟨s.takeWhile isWhite, fun _ hc => List.mem_takeWhile_imp hc, List.takeWhile_append_dropWhile.symm⟩

theorem begins_skipWhite (s : List Char) : begins isWhite (skipWhite s) = false := by
  induction s with
  | nil => rfl
  | cons c s ih =>
    unfold skipWhite
    by_cases hc : isWhite c = true
    · rw [List.dropWhile_cons_of_pos hc]
      exact ih
    · rw [List.dropWhile_cons_of_neg hc]
      simpa using hc

theorem skipWhite_of_white (h : White s r) : skipWhite s = skipWhite r := by
  obtain ⟨w, hw, rfl⟩ := h
  exact List.dropWhile_append_of_pos hw

theorem skipWhite_eq_self (h : begins isWhite r = false) : skipWhite r = r := by
  cases r with
  | nil => rfl
  | cons c r => exact List.dropWhile_cons_of_neg (by simpa using h)

theorem skipWhite_eq_of_white (h : White s r) (hr : begins isWhite r = false) : skipWhite s = r := by
  rw [skipWhite_of_white h, skipWhite_eq_self hr]

/-! ## Ends of lines -/

inductive Break : List Char → List Char → Prop
  | lineFeed (r : List Char) : Break ('\n' :: r) r
  | carriageReturn (r : List Char) : Break ('\r' :: '\n' :: r) r

def Comment (s r : List Char) : Prop := ∃ t, (∀ c ∈ t, isPlain c = true) ∧ s = '#' :: (t ++ r)

/-- The end of the text, or a line break. -/
inductive Ends : List Char → List Char → Prop
  | text : Ends [] []
  | line {s r : List Char} : Break s r → Ends s r

/-- Blanks, perhaps a comment, and the end of the line. -/
def LineEnd (s r : List Char) : Prop := ∃ s₁ s₂, White s s₁ ∧ (s₂ = s₁ ∨ Comment s₁ s₂) ∧ Ends s₂ r

theorem Break.suffix (h : Break s r) : r <:+ s := by
  cases h with
  | lineFeed => exact List.suffix_cons _ _
  | carriageReturn => exact (List.suffix_cons _ _).trans (List.suffix_cons _ _)

theorem Comment.suffix (h : Comment s r) : r <:+ s := by
  obtain ⟨t, -, rfl⟩ := h
  exact (List.suffix_append t r).trans (List.suffix_cons _ _)

theorem LineEnd.suffix (h : LineEnd s r) : r <:+ s := by
  obtain ⟨s₁, s₂, hw, hc, he⟩ := h
  have hr : r <:+ s₂ := by
    cases he with
    | text => exact List.suffix_refl _
    | line hb => exact hb.suffix
  rcases hc with rfl | hc
  · exact hr.trans hw.suffix
  · exact (hr.trans hc.suffix).trans hw.suffix

theorem lineBreak?_eq_some_iff : lineBreak? s = some r ↔ Break s r := by
  constructor
  · intro h
    unfold lineBreak? at h
    split at h
    · cases h; exact .lineFeed _
    · cases h; exact .carriageReturn _
    · cases h
  · intro h
    cases h
    · rfl
    · rfl

/-- A line break is neither a blank nor part of a comment. -/
theorem Break.begins (h : Break s r) : begins isPlain s = false ∧ Toml.begins isWhite s = false := by
  cases h <;> exact ⟨rfl, rfl⟩

theorem Ends.begins (h : Ends s r) : begins isPlain s = false ∧ Toml.begins isWhite s = false := by
  cases h with
  | text => exact ⟨rfl, rfl⟩
  | line hb => exact hb.begins

theorem dropPlain_eq_self (h : begins isPlain r = false) : r.dropWhile isPlain = r := by
  cases r with
  | nil => rfl
  | cons c r => exact List.dropWhile_cons_of_neg (by simpa using h)

theorem comment_skipComment (s : List Char) : skipComment s = s ∨ Comment s (skipComment s) := by
  unfold skipComment
  split
  · rename_i r
    right
    exact ⟨r.takeWhile isPlain, fun _ hc => List.mem_takeWhile_imp hc, by rw [List.takeWhile_append_dropWhile]⟩
  · exact Or.inl rfl

theorem skipComment_eq (h : Comment s r) (hr : begins isPlain r = false) : skipComment s = r := by
  obtain ⟨t, ht, rfl⟩ := h
  simp only [skipComment]
  rw [List.dropWhile_append_of_pos ht, dropPlain_eq_self hr]

theorem skipComment_eq_self (h : ∀ t, s ≠ '#' :: t) : skipComment s = s := by
  unfold skipComment
  split
  · exact absurd rfl (h _)
  · rfl

theorem lineEnd?_eq_some_iff : lineEnd? s = some r ↔ LineEnd s r := by
  constructor
  · intro h
    refine ⟨skipWhite s, skipComment (skipWhite s), white_skipWhite s, comment_skipComment _, ?_⟩
    unfold lineEnd? at h
    split at h
    · rename_i hs
      cases h
      rw [hs]
      exact .text
    · exact .line (lineBreak?_eq_some_iff.1 h)
  · rintro ⟨s₁, s₂, hw, hc, he⟩
    have hskip : skipComment (skipWhite s) = s₂ := by
      rcases hc with rfl | hc
      · rw [skipWhite_eq_of_white hw he.begins.2]
        refine skipComment_eq_self ?_
        rintro t rfl
        cases he.begins.1
      · have hs₁ : begins isWhite s₁ = false := by
          obtain ⟨t, -, rfl⟩ := hc
          rfl
        rw [skipWhite_eq_of_white hw hs₁, skipComment_eq hc he.begins.1]
    unfold lineEnd?
    rw [hskip]
    cases he with
    | text => rfl
    | line hb =>
      rw [← lineBreak?_eq_some_iff] at hb
      cases s₂ with
      | nil => cases hb
      | cons c t => exact hb

/-! ## Gaps -/

/-- Blanks, line breaks, and comments with the line breaks that end them. -/
inductive Gap : List Char → List Char → Prop
  | done (s : List Char) : Gap s s
  | white {c : Char} {s r : List Char} : isWhite c = true → Gap s r → Gap (c :: s) r
  | line {s s₁ r : List Char} : Break s s₁ → Gap s₁ r → Gap s r
  | comment {s s₁ s₂ r : List Char} : Comment s s₁ → Break s₁ s₂ → Gap s₂ r → Gap s r

namespace Gap

theorem suffix (h : Gap s r) : r <:+ s := by
  induction h with
  | done => exact List.suffix_refl _
  | white _ _ ih => exact ih.trans (List.suffix_cons _ _)
  | line hb _ ih => exact ih.trans hb.suffix
  | comment hc hb _ ih => exact (ih.trans hb.suffix).trans hc.suffix

end Gap

/-- No gap begins with this, and no comment ends with it. -/
def isSolid (c : Char) : Bool := isPlain c && !isWhite c && c != '#'

theorem isSolid_iff : isSolid c = true ↔ isPlain c = true ∧ isWhite c = false ∧ c ≠ '#' := by
  simp [isSolid, and_assoc]

/-- A character that begins no line break. -/
theorem skipGap_cons (b : Bool) (hn : c ≠ '\n') (hr : ∀ t, c = '\r' → s ≠ '\n' :: t) : skipGap b (c :: s) =
    if b then if isPlain c then skipGap true s else c :: s
    else if isWhite c then skipGap false s
    else if c = '#' then skipGap true s
    else c :: s := by
  rw [skipGap]
  · exact hr
  · exact hn

theorem isPlain_ne (h : isPlain c = true) : c ≠ '\n' ∧ c ≠ '\r' := by
  constructor
  · rintro rfl
    exact absurd h (by decide)
  · rintro rfl
    exact absurd h (by decide)

theorem skipGap_white (hc : isWhite c = true) (s : List Char) : skipGap false (c :: s) = skipGap false s := by
  have hn : c ≠ '\n' := by rintro rfl; cases hc
  have hr : c ≠ '\r' := by rintro rfl; cases hc
  rw [skipGap_cons false hn fun _ h => absurd h hr]
  simp [hc]

theorem skipGap_break (h : Break s r) (b : Bool) : skipGap b s = skipGap false r := by
  cases h <;> rw [skipGap]

theorem skipGap_plain {t : List Char} (ht : ∀ c ∈ t, isPlain c = true) (s : List Char) :
    skipGap true (t ++ s) = skipGap true s := by
  induction t with
  | nil => rfl
  | cons c t ih =>
    have hc : isPlain c = true := ht c (List.mem_cons_self ..)
    obtain ⟨hn, hr⟩ := isPlain_ne hc
    rw [List.cons_append, skipGap_cons true hn (fun _ h => absurd h hr), if_pos rfl, if_pos hc]
    exact ih fun d hd => ht d (List.mem_cons_of_mem _ hd)

theorem skipGap_comment (h : Comment s r) : skipGap false s = skipGap true r := by
  obtain ⟨t, ht, rfl⟩ := h
  rw [← skipGap_plain ht, skipGap_cons false (by decide) fun _ h => absurd h (by decide)]
  simp [isWhite]

theorem skipGap_of_gap (h : Gap s r) : skipGap false s = skipGap false r := by
  induction h with
  | done => rfl
  | white hc _ ih => rw [skipGap_white hc, ih]
  | line hb _ ih => rw [skipGap_break hb, ih]
  | comment hc hb _ ih => rw [skipGap_comment hc, skipGap_break hb, ih]

theorem skipGap_eq_self (h : begins isSolid r = true) : skipGap false r = r := by
  obtain ⟨c, t, rfl, hc⟩ := exists_of_begins h
  obtain ⟨hplain, hwhite, hhash⟩ := isSolid_iff.1 hc
  obtain ⟨hn, hr⟩ := isPlain_ne hplain
  rw [skipGap_cons false hn fun _ h => absurd h hr]
  simp [hwhite, hhash]

theorem skipGap_eq_of_gap (h : Gap s r) (hr : begins isSolid r = true) : skipGap false s = r := by
  rw [skipGap_of_gap h, skipGap_eq_self hr]

/-- Inside a comment, there is the rest of it and a line break before the gap goes on. -/
theorem gap_of_skipGap (b : Bool) (s : List Char) (h : begins isSolid (skipGap b s) = true) :
    if b then ∃ t s₁ s₂, (∀ c ∈ t, isPlain c = true) ∧ s = t ++ s₁ ∧ Break s₁ s₂ ∧ Gap s₂ (skipGap b s)
    else Gap s (skipGap b s) := by
  fun_induction skipGap b s with
  | case1 b => cases h
  | case2 b r ih =>
    have hg : Gap r (skipGap false r) := ih h
    cases b with
    | false => exact .line (.carriageReturn r) hg
    | true => exact ⟨[], _, r, by simp, rfl, .carriageReturn r, hg⟩
  | case3 b r ih =>
    have hg : Gap r (skipGap false r) := ih h
    cases b with
    | false => exact .line (.lineFeed r) hg
    | true => exact ⟨[], _, r, by simp, rfl, .lineFeed r, hg⟩
  | case4 c r h₁ h₂ hc ih =>
    obtain ⟨t, s₁, s₂, ht, rfl, hb, hg⟩ := ih h
    refine ⟨c :: t, s₁, s₂, ?_, rfl, hb, hg⟩
    intro d hd
    rcases List.mem_cons.1 hd with rfl | hd
    · exact hc
    · exact ht d hd
  | case5 c r h₁ h₂ hc => exact absurd (isSolid_iff.1 h).1 hc
  | case6 b c r h₁ h₂ hb hc ih =>
    rw [if_neg hb]
    exact .white hc (ih h)
  | case7 b r hb h₁ h₂ hc ih =>
    obtain ⟨t, s₁, s₂, ht, rfl, hbreak, hg⟩ := ih h
    rw [if_neg hb]
    exact .comment ⟨t, ht, rfl⟩ hbreak hg
  | case8 b c r h₁ h₂ hb =>
    rw [if_neg hb]
    exact .done _

theorem gap_skipGap (h : begins isSolid (skipGap false s) = true) : Gap s (skipGap false s) :=
  gap_of_skipGap false s h

theorem suffix_skipGap (b : Bool) (s : List Char) : skipGap b s <:+ s := by
  fun_induction skipGap b s with
  | case1 | case5 | case8 => exact List.suffix_refl _
  | case2 b r ih => exact (ih.trans (List.suffix_cons _ _)).trans (List.suffix_cons _ _)
  | case3 b r ih => exact ih.trans (List.suffix_cons _ _)
  | case4 c r h₁ h₂ hc ih => exact ih.trans (List.suffix_cons _ _)
  | case6 b c r h₁ h₂ hb hc ih => exact ih.trans (List.suffix_cons _ _)
  | case7 b r hb h₁ h₂ hc ih => exact ih.trans (List.suffix_cons _ _)

/-- Where a gap was passed, none begins. -/
theorem skipGap_skipGap (b : Bool) (s : List Char) : skipGap false (skipGap b s) = skipGap b s := by
  fun_induction skipGap b s with
  | case1 => rfl
  | case2 b r ih | case3 b r ih => exact ih
  | case4 c r h₁ h₂ hc ih => exact ih
  | case5 c r h₁ h₂ hc =>
    have hwhite : isWhite c = false := by
      cases hw : isWhite c with
      | false => rfl
      | true =>
        rcases isWhite_iff.1 hw with rfl | rfl
        · exact absurd rfl hc
        · exact absurd rfl hc
    have hhash : c ≠ '#' := by
      rintro rfl
      exact hc rfl
    rw [skipGap_cons false h₂ h₁]
    simp [hwhite, hhash]
  | case6 b c r h₁ h₂ hb hc ih => exact ih
  | case7 b r hb h₁ h₂ hc ih => exact ih
  | case8 b c r h₁ h₂ hb hw hh =>
    rw [skipGap_cons false h₂ h₁]
    simp [hw, hh]

end IconMaker.Toml
