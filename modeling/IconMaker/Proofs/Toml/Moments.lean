import IconMaker.Proofs.Toml.Numbers

/-
  IconMaker.Proofs.Toml.Moments — the notation of dates and times, and of all values within a
  line that are no strings.

  A date may be followed by a blank, and so may be the date that a time belongs to; what stands
  behind the blank tells the two apart. Dates and times are tried before numbers, which is
  right because no number can be taken for one (`dateTime?_of_number`).
-/

namespace IconMaker.Toml

variable {s r t ds : List Char} {c : Char} {p : Char → Bool} {negative : Bool} {x : Scalar}

/-! ## Dates and times -/

/-- Two digits with a value in a range. -/
inductive Pair2 (lo hi : Nat) : List Char → Nat → Prop
  | mk {a b : Char} : isDigit a = true → isDigit b = true → lo ≤ inBase 10 [a, b] → inBase 10 [a, b] ≤ hi →
      Pair2 lo hi [a, b] (inBase 10 [a, b])

/-- A date of the calendar. -/
inductive Date : List Char → Prop
  | mk {a b c d : Char} {t t' : List Char} {month day : Nat} : [a, b, c, d].all isDigit = true →
      Pair2 1 12 t month → Pair2 1 (daysIn (inBase 10 [a, b, c, d]) month) t' day →
      Date ([a, b, c, d, '-'] ++ (t ++ '-' :: t'))

/-- The part of a second. -/
inductive Part : List Char → Prop
  | none : Part []
  | digits {d : Char} {t : List Char} : isDigit d = true → (∀ c ∈ t, isDigit c = true) → Part ('.' :: d :: t)

/-- A time of the day, with its seconds; sixty of them are a leap second. -/
inductive Time : List Char → Prop
  | mk {t t' t'' u : List Char} {hour minute second : Nat} : Pair2 0 23 t hour → Pair2 0 59 t' minute →
      Pair2 0 60 t'' second → Part u → Time (t ++ ':' :: (t' ++ ':' :: (t'' ++ u)))

/-- How far a time is from universal time. -/
inductive Offset : List Char → Prop
  | zero {c : Char} : c = 'Z' ∨ c = 'z' → Offset [c]
  | signed {c : Char} {t t' : List Char} {hour minute : Nat} : c = '+' ∨ c = '-' → Pair2 0 23 t hour →
      Pair2 0 59 t' minute → Offset (c :: (t ++ ':' :: t'))

inductive Moment : List Char → Prop
  | date {t : List Char} : Date t → Moment t
  | time {t : List Char} : Time t → Moment t
  | dateTime {t t' : List Char} {c : Char} : Date t → c = 'T' ∨ c = 't' ∨ c = ' ' → Time t' → Moment (t ++ c :: t')
  | offset {t t' t'' : List Char} {c : Char} : Date t → c = 'T' ∨ c = 't' ∨ c = ' ' → Time t' → Offset t'' →
      Moment (t ++ c :: (t' ++ t''))

/-! ### Reading what is written -/

theorem twoDigits?_append {lo hi n : Nat} (h : Pair2 lo hi t n) (r : List Char) :
    twoDigits? lo hi (t ++ r) = some (n, r) := by
  obtain ⟨ha, hb, hlo, hhi⟩ := h
  simp only [List.cons_append, List.nil_append, twoDigits?, ha, hb, Bool.and_self, if_true, hlo, hhi, and_self]

theorem expect_cons (c : Char) (r : List Char) : expect c (c :: r) = some r := if_pos rfl

theorem date?_append (h : Date t) (r : List Char) : date? (t ++ r) = some r := by
  obtain ⟨hd, hm, hday⟩ := h
  simp only [List.cons_append, List.nil_append, List.append_assoc, date?, hd, if_true, twoDigits?_append hm,
    twoDigits?_append hday, expect_cons, Option.bind_eq_bind, Option.bind_some, Option.pure_def]

theorem secondPart_append (h : Part t) (hr : begins isDigit r = false) (hp : begins (· == '.') r = false) :
    secondPart (t ++ r) = r := by
  cases h with
  | none =>
    rw [List.nil_append]
    unfold secondPart
    split
    · cases hp
    · rfl
  | digits hd ht =>
    simp only [List.cons_append, secondPart, hd, if_true]
    rw [List.dropWhile_append_of_pos ht]
    cases r with
    | nil => rfl
    | cons c r => exact List.dropWhile_cons_of_neg (by simpa using hr)

theorem time?_append (h : Time t) (hr : begins isDigit r = false) (hp : begins (· == '.') r = false) :
    time? (t ++ r) = some r := by
  obtain ⟨hh, hm, hs, hu⟩ := h
  simp only [List.append_assoc, List.cons_append, time?, twoDigits?_append hh, twoDigits?_append hm, twoDigits?_append hs,
    expect_cons, Option.bind_eq_bind, Option.bind_some, Option.pure_def, secondPart_append hu hr hp]

theorem offset?_append (h : Offset t) (r : List Char) : offset? (t ++ r) = some r := by
  cases h with
  | zero hc =>
    simp only [List.cons_append, List.nil_append, offset?, if_pos hc]
  | @signed c t t' hour minute hc hh hm =>
    have hz : ¬ (c = 'Z' ∨ c = 'z') := by
      rcases hc with rfl | rfl
      · decide
      · decide
    simp only [List.cons_append, List.append_assoc, offset?, if_neg hz, if_pos hc, twoDigits?_append hh,
      twoDigits?_append hm, expect_cons, Option.bind_eq_bind, Option.bind_some, Option.pure_def]

/-! ### Writing what is read -/

theorem pair2_of_twoDigits? {lo hi n : Nat} (h : twoDigits? lo hi s = some (n, r)) :
    ∃ t, Pair2 lo hi t n ∧ s = t ++ r := by
  unfold twoDigits? at h
  split at h
  · rename_i a b r'
    split at h
    · rename_i hd
      rw [Bool.and_eq_true] at hd
      by_cases hn : lo ≤ inBase 10 [a, b] ∧ inBase 10 [a, b] ≤ hi
      · simp only [if_pos hn] at h
        cases h
        exact ⟨[a, b], .mk hd.1 hd.2 hn.1 hn.2, rfl⟩
      · simp only [if_neg hn] at h
        cases h
    · cases h
  · cases h

theorem eq_of_expect (h : expect c s = some r) : s = c :: r := by
  unfold expect at h
  split at h
  · split at h
    · rename_i hc
      cases h
      rw [hc]
    · cases h
  · cases h

theorem date_of_date? (h : date? s = some r) : ∃ t, Date t ∧ s = t ++ r := by
  unfold date? at h
  split at h
  · rename_i a b c d r'
    split at h
    · rename_i hd
      simp only [Option.bind_eq_bind, Option.bind_eq_some_iff, Prod.exists, Option.pure_def, Option.some.injEq] at h
      obtain ⟨month, r₁, hm, r₂, he, day, r₃, hday, rfl⟩ := h
      obtain ⟨t, ht, rfl⟩ := pair2_of_twoDigits? hm
      obtain rfl := eq_of_expect he
      obtain ⟨t', ht', rfl⟩ := pair2_of_twoDigits? hday
      exact ⟨_, .mk hd ht ht', by simp⟩
    · cases h
  · cases h

theorem exists_part (s : List Char) : ∃ t, Part t ∧ s = t ++ secondPart s := by
  unfold secondPart
  split
  · rename_i d r
    split
    · rename_i hd
      refine ⟨_, .digits hd (t := r.takeWhile isDigit) fun _ hc => List.mem_takeWhile_imp hc, ?_⟩
      rw [List.cons_append, List.cons_append, List.takeWhile_append_dropWhile]
    · exact ⟨[], .none, rfl⟩
  · exact ⟨[], .none, rfl⟩

theorem time_of_time? (h : time? s = some r) : ∃ t, Time t ∧ s = t ++ r := by
  unfold time? at h
  simp only [Option.bind_eq_bind, Option.bind_eq_some_iff, Prod.exists, Option.pure_def, Option.some.injEq] at h
  obtain ⟨hour, r₁, hh, r₂, he, minute, r₃, hm, r₄, he', second, r₅, hs, rfl⟩ := h
  obtain ⟨t, ht, rfl⟩ := pair2_of_twoDigits? hh
  obtain rfl := eq_of_expect he
  obtain ⟨t', ht', rfl⟩ := pair2_of_twoDigits? hm
  obtain rfl := eq_of_expect he'
  obtain ⟨t'', ht'', rfl⟩ := pair2_of_twoDigits? hs
  obtain ⟨u, hu, hur⟩ := exists_part r₅
  refine ⟨_, .mk ht ht' ht'' hu, ?_⟩
  simp [← hur]

theorem offset_of_offset? (h : offset? s = some r) : ∃ t, Offset t ∧ s = t ++ r := by
  unfold offset? at h
  split at h
  · rename_i c r'
    split at h
    · rename_i hc
      cases h
      exact ⟨_, .zero hc, rfl⟩
    · split at h
      · rename_i hc
        simp only [Option.bind_eq_bind, Option.bind_eq_some_iff, Prod.exists, Option.pure_def, Option.some.injEq] at h
        obtain ⟨hour, r₁, hh, r₂, he, minute, r₃, hm, rfl⟩ := h
        obtain ⟨t, ht, rfl⟩ := pair2_of_twoDigits? hh
        obtain rfl := eq_of_expect he
        obtain ⟨t', ht', rfl⟩ := pair2_of_twoDigits? hm
        exact ⟨_, .signed hc ht ht', by simp⟩
      · cases h
  · cases h

theorem moment_of_dateTime? (h : dateTime? s = some (x, r)) : x = .dateTime ∧ ∃ t, Moment t ∧ s = t ++ r := by
  unfold dateTime? at h
  split at h
  · rename_i c r₁ hd
    obtain ⟨t, ht, rfl⟩ := date_of_date? hd
    split at h
    · rename_i r₂ htime
      split at htime
      · rename_i hc
        obtain ⟨t', ht', rfl⟩ := time_of_time? htime
        cases ho : offset? r₂ with
        | none =>
          rw [ho] at h
          cases h
          exact ⟨rfl, _, .dateTime ht hc ht', by simp⟩
        | some r₃ =>
          rw [ho] at h
          cases h
          obtain ⟨t'', ht'', rfl⟩ := offset_of_offset? ho
          exact ⟨rfl, _, .offset ht hc ht' ht'', by simp⟩
      · cases htime
    · cases h
      exact ⟨rfl, _, .date ht, rfl⟩
  · rename_i hd
    cases h
    obtain ⟨t, ht, rfl⟩ := date_of_date? hd
    exact ⟨rfl, _, .date ht, rfl⟩
  · obtain ⟨r', htime, he⟩ := Option.map_eq_some_iff.1 h
    cases he
    obtain ⟨t, ht, rfl⟩ := time_of_time? htime
    exact ⟨rfl, _, .time ht, rfl⟩

/-! ### Numbers and dates apart -/

def isDateMark (c : Char) : Bool := c == '-' || c == ':'

theorem Pair2.eq {lo hi n : Nat} (h : Pair2 lo hi t n) :
    ∃ a b, t = [a, b] ∧ isDigit a = true ∧ isDigit b = true := by
  obtain ⟨ha, hb, -, -⟩ := h
  exact ⟨_, _, rfl, ha, hb⟩

/-- A date begins with digits and a dash, a time with digits and a colon. -/
theorem Date.begins (h : Date t) (r : List Char) :
    Toml.begins isDigit (t ++ r) = true ∧ Toml.begins isDateMark ((t ++ r).dropWhile isDigit) = true := by
  obtain ⟨hd, -, -⟩ := h
  simp only [List.all_cons, List.all_nil, Bool.and_true, Bool.and_eq_true] at hd
  obtain ⟨ha, hb, hc, hd⟩ := hd
  have hdash : isDigit '-' = false := rfl
  refine ⟨ha, ?_⟩
  simp [ha, hb, hc, hd, hdash, isDateMark]

theorem Time.begins (h : Time t) (r : List Char) :
    Toml.begins isDigit (t ++ r) = true ∧ Toml.begins isDateMark ((t ++ r).dropWhile isDigit) = true := by
  obtain ⟨hh, -, -, -⟩ := h
  obtain ⟨a, b, rfl, ha, hb⟩ := hh.eq
  have hcolon : isDigit ':' = false := rfl
  refine ⟨ha, ?_⟩
  simp [ha, hb, hcolon, isDateMark]

theorem Moment.begins (h : Moment t) (r : List Char) :
    Toml.begins isDigit (t ++ r) = true ∧ Toml.begins isDateMark ((t ++ r).dropWhile isDigit) = true := by
  cases h with
  | date h => exact h.begins r
  | time h => exact h.begins r
  | dateTime h | offset h =>
    rw [List.append_assoc]
    exact h.begins _

theorem dateTime?_eq_none (h : begins isDigit s = false ∨ begins isDateMark (s.dropWhile isDigit) = false) :
    dateTime? s = none := by
  cases hs : dateTime? s with
  | none => rfl
  | some y =>
    obtain ⟨-, t, ht, rfl⟩ := moment_of_dateTime? hs
    obtain ⟨hd, hm⟩ := ht.begins y.2
    rcases h with h | h
    · rw [hd] at h
      cases h
    · rw [hm] at h
      cases h

theorem dropDigits_eq_self (h : begins isDigit r = false) : r.dropWhile isDigit = r := by
  cases r with
  | nil => rfl
  | cons c r => exact List.dropWhile_cons_of_neg (by simpa using h)

theorem dropDigits_of_digits (h : Digits isDigit t ds) (hr : begins isDateMark (r.dropWhile isDigit) = false) :
    begins isDateMark ((t ++ r).dropWhile isDigit) = false := by
  induction h with
  | one hd =>
    rw [List.cons_append, List.nil_append, List.dropWhile_cons_of_pos hd]
    exact hr
  | more hd _ ih =>
    rw [List.cons_append, List.dropWhile_cons_of_pos hd]
    exact ih
  | apart hd =>
    rw [List.cons_append, List.cons_append, List.dropWhile_cons_of_pos hd]
    rfl

theorem dropDigits_of_whole (h : Whole t ds) (hr : begins isDateMark (r.dropWhile isDigit) = false) :
    begins isDateMark ((t ++ r).dropWhile isDigit) = false := by
  cases h with
  | zero => exact dropDigits_of_digits (.one (d := '0') rfl) hr
  | digits _ h => exact dropDigits_of_digits h hr

theorem Ended.not_dateMark (h : Ended r) : begins isDateMark (r.dropWhile isDigit) = false := by
  rw [dropDigits_eq_self h.not_digit]
  exact h.not_begins rfl

/-- The character may be the first one of a number. -/
def isNumberStart (c : Char) : Bool := isDigit c || isSign c || c == 'i' || c == 'n'

theorem Sign.begins {σ : List Char} (h : Sign σ negative) (hs : begins isNumberStart s = true) :
    Toml.begins isNumberStart (σ ++ s) = true := by
  cases h with
  | none => exact hs
  | plus | minus => rfl

theorem Whole.begins (h : Whole t ds) (r : List Char) : Toml.begins isDigit (t ++ r) = true := by
  obtain ⟨d, t', ds', rfl, -, hd⟩ := h.exists_cons
  exact hd

theorem begins_or {p q : Char → Bool} (h : begins p s = true) (hpq : ∀ c, p c = true → q c = true) :
    begins q s = true := by
  obtain ⟨c, r, rfl, hc⟩ := exists_of_begins h
  exact hpq c hc

theorem Number.begins {overflow : Bool} (h : Number overflow t x) (r : List Char) :
    Toml.begins isNumberStart (t ++ r) = true := by
  have hdigit : ∀ c, isDigit c = true → isNumberStart c = true := fun c hc => by simp [isNumberStart, hc]
  cases h with
  | infinity hσ | nan hσ =>
    rw [List.append_assoc]
    exact hσ.begins rfl
  | integer hσ ht | float hσ ht =>
    simp only [List.append_assoc]
    exact hσ.begins (begins_or (ht.begins _) hdigit)
  | based => rfl

/-- No number can be taken for a date or a time. -/
theorem dateTime?_of_number {overflow : Bool} (h : Number overflow t x) (hr : Ended r) :
    dateTime? (t ++ r) = none := by
  have hsigned : ∀ {negative σ s}, Sign σ negative → begins isDateMark (s.dropWhile isDigit) = false →
      begins isDigit (σ ++ s) = false ∨ begins isDateMark ((σ ++ s).dropWhile isDigit) = false := by
    intro negative σ s hσ hs
    cases hσ with
    | none => exact Or.inr hs
    | plus | minus => exact Or.inl rfl
  refine dateTime?_eq_none ?_
  cases h with
  | infinity hσ | nan hσ =>
    rw [List.append_assoc]
    exact hsigned hσ rfl
  | integer hσ ht =>
    rw [List.append_assoc]
    exact hsigned hσ (dropDigits_of_whole ht hr.not_dateMark)
  | @float σ t t' ds fs e negative hσ ht htail =>
    have htail' : begins isDateMark ((t' ++ r).dropWhile isDigit) = false := by
      obtain ⟨c, t'', rfl, hc⟩ := htail.exists_cons
      rcases hc with rfl | hc
      · rfl
      · have hdigit := (isExponentMark_ne hc).2.1
        rw [List.cons_append, List.dropWhile_cons_of_neg (by simpa using hdigit)]
        have hcases : c = 'e' ∨ c = 'E' := by simpa [isExponentMark] using hc
        rcases hcases with rfl | rfl <;> rfl
    rw [List.append_assoc, List.append_assoc]
    exact hsigned hσ (dropDigits_of_whole ht htail')
  | based hb =>
    right
    cases hb <;> rfl

theorem Ended.not_offset (h : Ended r) : offset? r = none := by
  rcases r with _ | ⟨c, r⟩
  · rfl
  · have hc : begins (fun c => c == 'Z' || c == 'z' || c == '+' || c == '-') (c :: r) = false :=
      h.not_begins rfl
    simp only [begins_cons, Bool.or_eq_false_iff, beq_eq_false_iff_ne] at hc
    simp [offset?, hc]

/-- A date that has ended does not go on with a time, not even behind a blank. -/
theorem Ended.not_time (h : Ended (c :: r)) (hc : c = 'T' ∨ c = 't' ∨ c = ' ') : time? r = none := by
  have hblank : isWhite c = true := by
    have hl : begins (fun c => c == 'T' || c == 't') (c :: r) = false := h.not_begins rfl
    simp only [begins_cons, Bool.or_eq_false_iff, beq_eq_false_iff_ne] at hl
    rcases hc with hc | hc | hc
    · exact absurd hc hl.1
    · exact absurd hc hl.2
    · rw [hc]
      rfl
  have hended : Ended r := by
    unfold Ended at h ⊢
    rwa [skipWhite_of_white (.cons hblank (.refl r))] at h
  cases htime : time? r with
  | none => rfl
  | some r' =>
    obtain ⟨t, ht, rfl⟩ := time_of_time? htime
    have hdigit := hended.not_digit
    rw [(ht.begins r').1] at hdigit
    cases hdigit

/-- The third character of a time is a colon, that of a date a digit. -/
theorem date?_of_time (h : Time t) (r : List Char) : date? (t ++ r) = none := by
  cases hd : date? (t ++ r) with
  | none => rfl
  | some r' =>
    obtain ⟨t', ht', he⟩ := date_of_date? hd
    obtain ⟨hh, -, -, -⟩ := h
    obtain ⟨hd', -, -⟩ := ht'
    obtain ⟨a, b, rfl, -, -⟩ := hh.eq
    have hc := (List.cons.inj (List.cons.inj (List.cons.inj he).2).2).1
    subst hc
    simp [isDigit] at hd'

theorem dateTime?_of_moment (h : Moment t) (hr : Ended r) : dateTime? (t ++ r) = some (.dateTime, r) := by
  have hdot : begins (· == '.') r = false := hr.not_begins rfl
  unfold dateTime?
  cases h with
  | date h =>
    rw [date?_append h]
    rcases r with _ | ⟨c, r⟩
    · rfl
    · have hnone : (if c = 'T' ∨ c = 't' ∨ c = ' ' then time? r else none) = none :=
        ite_eq_right_iff.2 hr.not_time
      simp only [hnone]
  | time h =>
    simp only [date?_of_time h, time?_append h hr.not_digit hdot, Option.map_some]
  | dateTime h hc ht =>
    rw [List.append_assoc, date?_append h]
    simp only [List.cons_append, if_pos hc, time?_append ht hr.not_digit hdot, hr.not_offset, Option.getD_none]
  | @offset t t' t'' c h hc ht ho =>
    have hd : begins isDigit (t'' ++ r) = false ∧ begins (· == '.') (t'' ++ r) = false := by
      cases ho with
      | zero hz => rcases hz with rfl | rfl <;> exact ⟨rfl, rfl⟩
      | signed hz => rcases hz with rfl | rfl <;> exact ⟨rfl, rfl⟩
    rw [List.append_assoc, date?_append h]
    simp only [List.cons_append, List.append_assoc, if_pos hc, time?_append ht hd.1 hd.2, offset?_append ho,
      Option.getD_some]

/-! ## All values within a line that are no strings -/

inductive Plain (overflow : Bool) : List Char → Scalar → Prop
  | yes : Plain overflow ['t', 'r', 'u', 'e'] (.boolean true)
  | no : Plain overflow ['f', 'a', 'l', 's', 'e'] (.boolean false)
  | moment {t : List Char} : Moment t → Plain overflow t .dateTime
  | number {t : List Char} {x : Scalar} : Number overflow t x → Plain overflow t x

theorem plainScalar?_of_plain (h : Plain false t x) (hr : Ended r) : plainScalar? (t ++ r) = some (x, r) := by
  cases h with
  | yes | no => rfl
  | moment h =>
    have hd := (h.begins r).1
    rw [plainScalar?, dateTime?_of_moment h hr]
    · intro s hs
      rw [hs] at hd
      cases hd
    · intro s hs
      rw [hs] at hd
      cases hd
  | number h =>
    have hd := h.begins r
    rw [plainScalar?, dateTime?_of_number h hr]
    · exact number?_of_number h hr
    · intro s hs
      rw [hs] at hd
      cases hd
    · intro s hs
      rw [hs] at hd
      cases hd

theorem plain_of_plainScalar? (h : plainScalar? s = some (x, r)) : ∃ t, Plain false t x ∧ s = t ++ r := by
  unfold plainScalar? at h
  split at h
  · cases h
    exact ⟨_, .yes, rfl⟩
  · cases h
    exact ⟨_, .no, rfl⟩
  · split at h
    · rename_i y hy
      cases h
      obtain ⟨rfl, t, ht, hs⟩ := moment_of_dateTime? hy
      exact ⟨t, .moment ht, hs⟩
    · obtain ⟨t, ht, hs⟩ := number_of_number? h
      exact ⟨t, .number ht, hs⟩

/-- The character may be the first one of such a value. -/
def isPlainStart (c : Char) : Bool := isNumberStart c || c == 't' || c == 'f'

theorem Plain.begins {overflow : Bool} (h : Plain overflow t x) (r : List Char) :
    Toml.begins isPlainStart (t ++ r) = true := by
  cases h with
  | yes | no => rfl
  | moment h => exact begins_or (h.begins r).1 fun c hc => by simp [isPlainStart, isNumberStart, hc]
  | number h => exact begins_or (h.begins r) fun c hc => by simp [isPlainStart, hc]

end IconMaker.Toml
