import IconMaker.Proofs.Toml.Insertion
import IconMaker.Proofs.Toml.Keys
import IconMaker.Proofs.Toml.Moments

/-
  IconMaker.Proofs.Toml.Values — the notation of values, and that the readers follow it.

  `Items` is an array behind its bracket, with gaps around the items and perhaps a comma behind
  the last one; `Pairs` is an inline table behind its brace, within a line and without such a
  comma. Both take the notation of their values as a parameter, so that `ValueAt` is by
  recursion on how deep values may nest. The reader of values takes exactly what is written so
  (`follows_value`) if a value may end there.
-/

namespace IconMaker.Toml

/-! ## The notation -/

/-- What a notation allows beyond its shape. -/
structure Rules where
  /-- How deep arrays and inline tables nest. -/
  nesting : Nat
  /-- How many parts a key has. -/
  parts : Nat
  /-- Are there floats that are rounded to plus infinity? -/
  overflow : Bool
  /-- May dotted keys lead where headers have led? -/
  lenient : Bool
  deriving DecidableEq, Repr

/-- The rules of the readers, with or without their leniency. -/
def Rules.limited (lenient : Bool) : Rules := ⟨maxDepth, maxDepth, false, lenient⟩

inductive ScalarAt (ρ : Rules) : List Char → Scalar → List Char → Prop
  | string {s cs r : List Char} : Str s cs r → ScalarAt ρ s (.string cs) r
  | plain {t r : List Char} {x : Scalar} : Plain ρ.overflow t x → ScalarAt ρ (t ++ r) x r

/-- The notation of something: a text, what stands at its beginning, and what is left. -/
abbrev Notation (α : Type) := List Char → α → List Char → Prop

/-- The items of an array, behind the opening bracket or a comma. -/
inductive Items (inner : Notation Value) : Notation (List Value)
  | close {s r : List Char} : Gap s (']' :: r) → Items inner s [] r
  | last {s s₁ s₂ r : List Char} {v : Value} : Gap s s₁ → inner s₁ v s₂ → Gap s₂ (']' :: r) → Items inner s [v] r
  | more {s s₁ s₂ s₃ r : List Char} {v : Value} {vs : List Value} : Gap s s₁ → inner s₁ v s₂ → Gap s₂ (',' :: s₃) →
      Items inner s₃ vs r → Items inner s (v :: vs) r

/-- A key, the sign `=` and a value, with the blanks behind it. -/
inductive PairAt (ρ : Rules) (inner : Notation Value) : Notation (List Key × Key × Value)
  | mk {s s₁ s₂ s₃ r : List Char} {path : List Key} {k : Key} {v : Value} : KeyAt ρ.parts s path k ('=' :: s₁) →
      White s₁ s₂ → inner s₂ v s₃ → White s₃ r → PairAt ρ inner s (path, k, v) r

/-- The entries of an inline table, behind the opening brace or a comma. -/
inductive Pairs (ρ : Rules) (inner : Notation Value) : Notation (List (List Key × Key × Value))
  | last {s s₁ r : List Char} {p : List Key × Key × Value} : White s s₁ → PairAt ρ inner s₁ p ('}' :: r) →
      Pairs ρ inner s [p] r
  | more {s s₁ s₂ r : List Char} {p : List Key × Key × Value} {ps : List (List Key × Key × Value)} : White s s₁ →
      PairAt ρ inner s₁ p (',' :: s₂) → Pairs ρ inner s₂ ps r → Pairs ρ inner s (p :: ps) r

inductive InlineAt (ρ : Rules) (inner : Notation Value) : Notation Entries
  | empty {s r : List Char} : White s ('}' :: r) → InlineAt ρ inner s [] r
  | pairs {s r : List Char} {ps : List (List Key × Key × Value)} {es : Entries} : Pairs ρ inner s ps r →
      Inlined ps [] es → InlineAt ρ inner s es r

/-- A value whose parts are values of the notation `inner`. -/
inductive Layer (ρ : Rules) (inner : Notation Value) : Notation Value
  | scalar {s r : List Char} {x : Scalar} : ScalarAt ρ s x r → Layer ρ inner s (.scalar (markOf s) x) r
  | array {s r : List Char} {vs : List Value} : Items inner s vs r →
      Layer ρ inner ('[' :: s) (.array (markOf ('[' :: s)) vs) r
  | table {s r : List Char} {es : Entries} : InlineAt ρ inner s es r →
      Layer ρ inner ('{' :: s) (.table .inline (some (markOf ('{' :: s))) es) r

/-- A value in which arrays and inline tables nest at most so deep. -/
def ValueAt (ρ : Rules) : Nat → Notation Value
  | 0 => fun s v r => ∃ x, ScalarAt ρ s x r ∧ v = .scalar (markOf s) x
  | depth + 1 => Layer ρ (ValueAt ρ depth)

variable {ρ : Rules} {inner : Notation Value} {s s₁ r : List Char} {v : Value} {x : Scalar} {vs : List Value}
  {p : List Key × Key × Value} {ps : List (List Key × Key × Value)} {es : Entries} {depth : Nat}

/-! ## How values begin, and what they leave -/

/-- The character may be the first one of a value. -/
def isStart (c : Char) : Bool := isSolid c && !isStop c

theorem isStart_iff {c : Char} : isStart c = true ↔ isSolid c = true ∧ isStop c = false := by
  simp [isStart]

theorem isStart_of_digit {c : Char} (h : isDigit c = true) : isStart c = true := by
  have hne : ∀ d : Char, isDigit d = false → c ≠ d := fun d hd => isDigit_ne h hd
  simp only [isDigit, Bool.and_eq_true, decide_eq_true_eq] at h
  have hlow : ' ' ≤ c := Char.le_trans (show ' ' ≤ '0' by decide) h.1
  have hhigh : c ≤ '~' := Char.le_trans h.2 (show '9' ≤ '~' by decide)
  have h₁ := hne ' ' rfl
  have h₂ := hne '\t' rfl
  have h₃ := hne '#' rfl
  have h₄ := hne '\n' rfl
  have h₅ := hne '\r' rfl
  have h₆ := hne ',' rfl
  have h₇ := hne ']' rfl
  have h₈ := hne '}' rfl
  simp [isStart, isSolid, isPlain, isWhite, isStop, hlow, hhigh, h₁, h₂, h₃, h₄, h₅, h₆, h₇, h₈]

theorem isStart_of_plainStart {c : Char} (h : isPlainStart c = true) : isStart c = true := by
  simp only [isPlainStart, isNumberStart, isSign, Bool.or_eq_true, beq_iff_eq] at h
  rcases h with ((((hd | rfl | rfl) | rfl) | rfl) | rfl) | rfl
  · exact isStart_of_digit hd
  all_goals rfl

/-- None of the characters that begin other values. -/
theorem isPlainStart_ne {c d : Char} (h : isPlainStart c = true) (hd : isPlainStart d = false) : c ≠ d := by
  rintro rfl
  rw [h] at hd
  cases hd

theorem ScalarAt.begins (h : ScalarAt ρ s x r) : begins isStart s = true := by
  cases h with
  | string h =>
    refine begins_or h.begins ?_
    intro c hc
    rcases isQuote_iff.1 hc with rfl | rfl <;> rfl
  | plain h => exact begins_or (h.begins _) fun c hc => isStart_of_plainStart hc

theorem ValueAt.begins (h : ValueAt ρ depth s v r) : begins isStart s = true := by
  cases depth with
  | zero =>
    obtain ⟨x, hx, -⟩ := h
    exact hx.begins
  | succ depth =>
    cases h with
    | scalar h => exact h.begins
    | array | table => rfl

theorem ScalarAt.suffix (h : ScalarAt ρ s x r) : r <:+ s := by
  cases h with
  | string h => exact h.suffix
  | plain => exact List.suffix_append _ _

section Suffixes

variable (hinner : ∀ {s v r}, inner s v r → r <:+ s)

include hinner

theorem Items.suffix (h : Items inner s vs r) : r <:+ s := by
  induction h with
  | close hg => exact (List.suffix_cons _ _).trans hg.suffix
  | last hg hv hg' => exact (((List.suffix_cons _ _).trans hg'.suffix).trans (hinner hv)).trans hg.suffix
  | more hg hv hg' _ ih =>
    exact (((ih.trans (List.suffix_cons _ _)).trans hg'.suffix).trans (hinner hv)).trans hg.suffix

theorem PairAt.suffix (h : PairAt ρ inner s p r) : r <:+ s := by
  cases h with
  | mk hk hw hv hw' =>
    exact (((hw'.suffix.trans (hinner hv)).trans hw.suffix).trans (List.suffix_cons _ _)).trans hk.1.suffix

theorem Pairs.suffix (h : Pairs ρ inner s ps r) : r <:+ s := by
  induction h with
  | last hw hp => exact ((List.suffix_cons _ _).trans (hp.suffix hinner)).trans hw.suffix
  | more hw hp _ ih => exact ((ih.trans (List.suffix_cons _ _)).trans (hp.suffix hinner)).trans hw.suffix

theorem InlineAt.suffix (h : InlineAt ρ inner s es r) : r <:+ s := by
  cases h with
  | empty hw => exact (List.suffix_cons _ _).trans hw.suffix
  | pairs hp => exact hp.suffix hinner

theorem Layer.suffix (h : Layer ρ inner s v r) : r <:+ s := by
  cases h with
  | scalar h => exact h.suffix
  | array h => exact (h.suffix hinner).trans (List.suffix_cons _ _)
  | table h => exact (h.suffix hinner).trans (List.suffix_cons _ _)

end Suffixes

theorem ValueAt.suffix (h : ValueAt ρ depth s v r) : r <:+ s := by
  induction depth generalizing s v r with
  | zero =>
    obtain ⟨x, hx, -⟩ := h
    exact hx.suffix
  | succ depth ih => exact Layer.suffix (fun h => ih h) h

/-! ## The readers -/

/-- A reader takes what is written in a notation, and no more than that, wherever it may end. -/
structure Follows (value : List Char → Option (Value × List Char)) (inner : Notation Value) : Prop where
  read : ∀ {s v r}, inner s v r → Ended r → value s = some (v, r)
  write : ∀ {s v r}, value s = some (v, r) → inner s v r
  begins : ∀ {s v r}, inner s v r → begins isStart s = true
  suffix : ∀ {s v r}, inner s v r → r <:+ s

variable {value : List Char → Option (Value × List Char)}

theorem begins_isSolid (h : begins isStart s = true) : begins isSolid s = true :=
  begins_or h fun _ hc => (isStart_iff.1 hc).1

theorem begins_not_white (h : begins isSolid s = true) : begins isWhite s = false :=
  not_begins h fun _ hc => (isSolid_iff.1 hc).2.1

/-- No value begins where one has to end. -/
theorem Follows.none (h : Follows value inner) (hs : Toml.begins isStop s = true) : value s = none := by
  cases hv : value s with
  | none => rfl
  | some x =>
    have hstart := h.begins (h.write (v := x.1) (r := x.2) hv)
    have := not_begins hstart fun c hc => (isStart_iff.1 hc).2
    rw [hs] at this
    cases this

/-! ### Arrays -/

/-- One item with the gaps around it. -/
def itemOf (value : List Char → Option (Value × List Char)) (s : List Char) : Option (Value × List Char) :=
  (value (skipGap false s)).map fun x => (x.1, skipGap false x.2)

theorem itemOf_eq_some_iff : itemOf value s = some (v, r) ↔
    ∃ s₁, value (skipGap false s) = some (v, s₁) ∧ r = skipGap false s₁ := by
  unfold itemOf
  constructor
  · intro h
    obtain ⟨⟨v', s₁⟩, hx, he⟩ := Option.map_eq_some_iff.1 h
    cases he
    exact ⟨s₁, hx, rfl⟩
  · rintro ⟨s₁, hx, rfl⟩
    rw [hx]
    rfl

theorem leaves_itemOf (h : Follows value inner) : Leaves (itemOf value) := by
  intro s v r hs
  obtain ⟨s₁, hv, rfl⟩ := itemOf_eq_some_iff.1 hs
  exact ((suffix_skipGap false s₁).trans (h.suffix (h.write hv))).trans (suffix_skipGap false s)

theorem itemOf_of_inner (h : Follows value inner) {s₂ : List Char} (hg : Gap s s₁) (hv : inner s₁ v s₂) (hg' : Gap s₂ r)
    (hr : begins isStop r = true) (hr' : begins isSolid r = true) : itemOf value s = some (v, r) := by
  refine itemOf_eq_some_iff.2 ⟨s₂, ?_, (skipGap_eq_of_gap hg' hr').symm⟩
  rw [skipGap_eq_of_gap hg (begins_isSolid (h.begins hv))]
  exact h.read hv (.of_gap hg' hr)

/-- What may be left before the closing bracket: nothing, or a comma and a gap. -/
def Closes (s r : List Char) : Prop := s = ']' :: r ∨ ∃ t, s = ',' :: t ∧ Gap t (']' :: r)

theorem itemOf_of_gap (h : Follows value inner) (hg : Gap s (']' :: r)) : itemOf value s = none := by
  unfold itemOf
  rw [skipGap_eq_of_gap hg rfl, h.none rfl]
  rfl

theorem chain_of_items (h : Follows value inner) (hs : Items inner s vs r) :
    (vs = [] ∧ Gap s (']' :: r)) ∨
    ∃ v vs' s' r', vs = v :: vs' ∧ itemOf value s = some (v, s') ∧ Chain (behind ',' (itemOf value)) s' vs' r' ∧
      behind ',' (itemOf value) r' = none ∧ Closes r' r := by
  induction hs with
  | close hg => exact Or.inl ⟨rfl, hg⟩
  | @last s s₁ s₂ r v hg hv hg' =>
    right
    exact ⟨v, [], ']' :: r, ']' :: r, rfl, itemOf_of_inner h hg hv hg' rfl rfl, .nil _, behind_eq_none rfl, Or.inl rfl⟩
  | @more s s₁ s₂ s₃ r v vs hg hv hg' _ ih =>
    right
    have hitem := itemOf_of_inner h hg hv hg' rfl rfl
    rcases ih with ⟨rfl, hclose⟩ | ⟨v', vs', s', r', rfl, hnext, hchain, hend, hclose⟩
    · refine ⟨v, [], ',' :: s₃, ',' :: s₃, rfl, hitem, .nil _, ?_, Or.inr ⟨s₃, rfl, hclose⟩⟩
      rw [behind, expect_cons]
      exact itemOf_of_gap h hclose
    · exact ⟨v, v' :: vs', ',' :: s₃, r', rfl, hitem, .cons (behind_eq_some_iff.2 ⟨s₃, rfl, hnext⟩) hchain, hend, hclose⟩

/-- Without the comma that may stand behind the last item. -/
def dropComma : List Value → List Char → List Char
  | _ :: _, ',' :: r => r
  | _, r => r

theorem dropComma_cases (vs : List Value) (r : List Char) :
    dropComma vs r = r ∨ ∃ t, r = ',' :: t ∧ dropComma vs r = t := by
  unfold dropComma
  split
  · exact Or.inr ⟨_, rfl, rfl⟩
  · exact Or.inl rfl

theorem arrayItems?_eq (value : List Char → Option (Value × List Char)) (s : List Char) :
    arrayItems? value s =
      (expect ']' (skipGap false (dropComma (separated ',' (itemOf value) s).1 (separated ',' (itemOf value) s).2))).map
        fun r => ((separated ',' (itemOf value) s).1, r) := rfl

theorem arrayItems?_of_items (h : Follows value inner) (hs : Items inner s vs r) :
    arrayItems? value s = some (vs, r) := by
  rw [arrayItems?_eq]
  rcases chain_of_items h hs with ⟨rfl, hclose⟩ | ⟨v, vs', s', r', rfl, hitem, hchain, hend, hclose⟩
  · rw [separated_of_none (itemOf_of_gap h hclose)]
    simp only [dropComma, skipGap_eq_of_gap hclose rfl, expect_cons, Option.map_some]
  · rw [separated_of_some (leaves_itemOf h) hitem hchain hend]
    rcases hclose with rfl | ⟨t, rfl, hg⟩
    · have hcomma : dropComma (v :: vs') (']' :: r) = ']' :: r := rfl
      have hskip : skipGap false (']' :: r) = ']' :: r := skipGap_eq_self rfl
      simp only [hcomma, hskip, expect_cons, Option.map_some]
    · have hcomma : dropComma (v :: vs') (',' :: t) = t := rfl
      simp only [hcomma, skipGap_eq_of_gap hg rfl, expect_cons, Option.map_some]

theorem items_of_chain (h : Follows value inner) {s' r' : List Char} (hitem : itemOf value s = some (v, s'))
    (hchain : Chain (behind ',' (itemOf value)) s' vs r')
    (hclose : skipGap false r' = ']' :: r ∨ ∃ t, r' = ',' :: t ∧ skipGap false t = ']' :: r) :
    Items inner s (v :: vs) r := by
  induction hchain generalizing s v with
  | nil s' =>
    obtain ⟨s₁, hv, rfl⟩ := itemOf_eq_some_iff.1 hitem
    have hinner := h.write hv
    have hg := gap_skipGap (begins_isSolid (h.begins hinner))
    rcases hclose with hclose | ⟨t, ht, hclose⟩
    · rw [skipGap_skipGap] at hclose
      have hg' := gap_skipGap (s := s₁) (by rw [hclose]; rfl)
      rw [hclose] at hg'
      exact .last hg hinner hg'
    · have hg' := gap_skipGap (s := s₁) (by rw [ht]; rfl)
      have hg'' := gap_skipGap (s := t) (by rw [hclose]; rfl)
      rw [ht] at hg'
      rw [hclose] at hg''
      exact .more hg hinner hg' (.close hg'')
  | cons hnext _ ih =>
    obtain ⟨s₁, hv, rfl⟩ := itemOf_eq_some_iff.1 hitem
    have hinner := h.write hv
    have hg := gap_skipGap (begins_isSolid (h.begins hinner))
    obtain ⟨t, ht, hnext⟩ := behind_eq_some_iff.1 hnext
    have hg' := gap_skipGap (s := s₁) (by rw [ht]; rfl)
    rw [ht] at hg'
    exact .more hg hinner hg' (ih hnext hclose)

theorem items_of_arrayItems? (h : Follows value inner) (hs : arrayItems? value s = some (vs, r)) :
    Items inner s vs r := by
  rw [arrayItems?_eq] at hs
  obtain ⟨r₁, hend, he⟩ := Option.map_eq_some_iff.1 hs
  cases he
  have hgap := eq_of_expect hend
  generalize hsep : separated ',' (itemOf value) s = y at hgap ⊢
  obtain ⟨vs, r'⟩ := y
  rcases separated_cases (leaves_itemOf h) hsep with ⟨rfl, rfl, -⟩ | ⟨v, s', vs', rfl, hitem, hchain, -⟩
  · unfold dropComma at hgap
    have hg := gap_skipGap (s := r') (by rw [hgap]; rfl)
    rw [hgap] at hg
    exact .close hg
  · refine items_of_chain h hitem hchain ?_
    rcases dropComma_cases (v :: vs') r' with hcomma | ⟨t, rfl, hcomma⟩
    · exact Or.inl (by rw [← hgap, hcomma])
    · exact Or.inr ⟨t, rfl, by rw [← hgap, hcomma]⟩

/-! ### Inline tables -/

theorem pair?_of_pairAt (h : Follows value inner) (hp : PairAt ρ inner s₁ p r) (hparts : ρ.parts ≤ maxDepth)
    (hw : White s s₁) (hr : Ended r) : pair? value s = some (p, skipWhite r) := by
  cases hp with
  | @mk _ s₂ s₃ s₄ _ path k v hk hw' hv hw'' =>
    have hskip : skipWhite s₂ = s₃ := skipWhite_eq_of_white hw' (begins_not_white (begins_isSolid (h.begins hv)))
    unfold pair?
    simp only [key?_of_keyAt hk hparts hw rfl, expect_cons, hskip, h.read hv (ended_of_white hw'' hr),
      Option.bind_eq_bind, Option.bind_some, Option.pure_def, skipWhite_of_white hw'']

theorem pairAt_of_pair? (h : Follows value inner) (hparts : ρ.parts = maxDepth) (hs : pair? value s = some (p, r)) :
    PairAt ρ inner (skipWhite s) p r ∧ skipWhite r = r := by
  unfold pair? at hs
  simp only [Option.bind_eq_bind, Option.bind_eq_some_iff, Prod.exists, Option.pure_def, Option.some.injEq,
    Prod.mk.injEq] at hs
  obtain ⟨path, k, s₁, hk, s₂, he, v, s₃, hv, rfl, rfl⟩ := hs
  obtain rfl := eq_of_expect he
  have hkey := keyAt_of_key? hk
  rw [← hparts] at hkey
  exact ⟨.mk hkey (white_skipWhite s₂) (h.write hv) (white_skipWhite s₃), skipWhite_eq_self (begins_skipWhite s₃)⟩

theorem PairAt.begins (h : PairAt ρ inner s p r) : begins isKeyStart s = true := by
  cases h with
  | mk hk => exact hk.1.begins

theorem isKeyStart_solid {c : Char} (h : isKeyStart c = true) :
    c ≠ '}' ∧ c ≠ '[' ∧ c ≠ '#' ∧ isWhite c = false := by
  have hne : ∀ d, isKeyStart d = false → c ≠ d := by
    rintro d hd rfl
    rw [h] at hd
    cases hd
  refine ⟨hne _ rfl, hne _ rfl, hne _ rfl, ?_⟩
  have h₁ := hne ' ' rfl
  have h₂ := hne '\t' rfl
  simp [isWhite, h₁, h₂]

theorem leaves_pair? (h : Follows value inner) : Leaves (pair? value) := by
  intro s p r hs
  obtain ⟨hp, -⟩ := pairAt_of_pair? (ρ := Rules.limited true) h rfl hs
  exact (hp.suffix fun hv => h.suffix hv).trans (white_skipWhite s).suffix

theorem chain_of_pairs (h : Follows value inner) (hparts : ρ.parts ≤ maxDepth) (hs : Pairs ρ inner s ps r) :
    ∃ p ps' s', ps = p :: ps' ∧ pair? value s = some (p, s') ∧ Chain (behind ',' (pair? value)) s' ps' ('}' :: r) := by
  induction hs with
  | @last s s₁ r p hw hp =>
    have hread := pair?_of_pairAt h hp hparts hw (ended_of_stop rfl)
    rw [skipWhite_eq_self (r := '}' :: r) rfl] at hread
    exact ⟨p, [], _, rfl, hread, .nil _⟩
  | @more s s₁ s₂ r p ps hw hp _ ih =>
    have hread := pair?_of_pairAt h hp hparts hw (ended_of_stop rfl)
    rw [skipWhite_eq_self (r := ',' :: s₂) rfl] at hread
    obtain ⟨p', ps', s', rfl, hnext, hchain⟩ := ih
    exact ⟨p, p' :: ps', _, rfl, hread, .cons (behind_eq_some_iff.2 ⟨s₂, rfl, hnext⟩) hchain⟩

theorem pairs_of_chain (h : Follows value inner) (hparts : ρ.parts = maxDepth) {s' r' : List Char}
    (hpair : pair? value s = some (p, s')) (hchain : Chain (behind ',' (pair? value)) s' ps r')
    (hclose : skipWhite r' = '}' :: r) : Pairs ρ inner s (p :: ps) r := by
  induction hchain generalizing s p with
  | nil s' =>
    obtain ⟨hp, hskip⟩ := pairAt_of_pair? h hparts hpair
    rw [hskip] at hclose
    rw [hclose] at hp
    exact .last (white_skipWhite s) hp
  | cons hnext _ ih =>
    obtain ⟨hp, -⟩ := pairAt_of_pair? h hparts hpair
    obtain ⟨t, rfl, hnext⟩ := behind_eq_some_iff.1 hnext
    exact .more (white_skipWhite s) hp (ih hnext hclose)

theorem inlineTable?_of_inlineAt (h : Follows value inner) (hparts : ρ.parts ≤ maxDepth) (hs : InlineAt ρ inner s es r) :
    inlineTable? value s = some (es, r) := by
  cases hs with
  | empty hw =>
    have hskip : skipWhite s = '}' :: r := skipWhite_eq_of_white hw rfl
    have hnone : pair? value s = none := by
      cases hp : pair? value s with
      | none => rfl
      | some x =>
        obtain ⟨hpair, -⟩ := pairAt_of_pair? (ρ := Rules.limited true) (p := x.1) (r := x.2) h rfl hp
        rw [hskip] at hpair
        cases hpair.begins
    unfold inlineTable?
    rw [separated_of_none hnone]
    simp only [hskip, expect_cons, Option.bind_eq_bind, Option.bind_some, inlineEntries, List.foldlM_nil, Option.pure_def]
  | @pairs s r ps es hp hes =>
    obtain ⟨p, ps', s', rfl, hpair, hchain⟩ := chain_of_pairs h hparts hp
    have hskip : skipWhite ('}' :: r) = '}' :: r := skipWhite_eq_self rfl
    have hentries : inlineEntries (p :: ps') = some es := inlineEntries_eq_some_iff.2 hes
    unfold inlineTable?
    rw [separated_of_some (leaves_pair? h) hpair hchain (behind_eq_none rfl)]
    simp only [hskip, expect_cons, hentries, Option.bind_eq_bind, Option.bind_some, Option.pure_def]

theorem inlineAt_of_inlineTable? (h : Follows value inner) (hparts : ρ.parts = maxDepth)
    (hs : inlineTable? value s = some (es, r)) : InlineAt ρ inner s es r := by
  unfold inlineTable? at hs
  generalize hsep : separated ',' (pair? value) s = y at hs
  obtain ⟨ps, r'⟩ := y
  simp only [Option.bind_eq_bind, Option.bind_eq_some_iff, Option.pure_def, Option.some.injEq, Prod.mk.injEq] at hs
  obtain ⟨r₁, hend, es', hes, rfl, rfl⟩ := hs
  have hclose := eq_of_expect hend
  rcases separated_cases (leaves_pair? h) hsep with ⟨rfl, rfl, -⟩ | ⟨p, s', ps', rfl, hpair, hchain, -⟩
  · have hw := white_skipWhite r'
    rw [hclose] at hw
    have hnil : es' = [] := by
      simpa [inlineEntries] using hes.symm
    rw [hnil]
    exact .empty hw
  · exact .pairs (pairs_of_chain h hparts hpair hchain hclose) (inlineEntries_eq_some_iff.1 hes)

/-! ### Values -/

/-- Where a scalar begins, the reader of values reads one. -/
theorem value?_of_scalarAt (hover : ρ.overflow = false) (h : ScalarAt ρ s x r) (hr : Ended r) (depth : Nat) :
    value? depth s = some (.scalar (markOf s) x, r) := by
  cases h with
  | string h =>
    have hquote : begins isQuote r = false := hr.not_begins rfl
    have hread := string?_of_str hquote h
    obtain ⟨c, t, rfl, hc⟩ := exists_of_begins h.begins
    rcases isQuote_iff.1 hc with rfl | rfl
    · cases depth <;> simp only [value?, hread, Option.map_some]
    · cases depth <;> simp only [value?, hread, Option.map_some]
  | @plain t r x h =>
    have hplain := h
    rw [hover] at hplain
    have hread := plainScalar?_of_plain hplain hr
    obtain ⟨c, t', hs, hc⟩ := exists_of_begins (h.begins r)
    rw [hs] at hread ⊢
    have h₁ := isPlainStart_ne hc (d := '[') rfl
    have h₂ := isPlainStart_ne hc (d := '{') rfl
    have h₃ := isPlainStart_ne hc (d := '"') rfl
    have h₄ := isPlainStart_ne hc (d := '\'') rfl
    unfold value?
    split
    · rename_i heq
      exact absurd (List.cons.inj heq).1 h₁
    · rename_i heq
      exact absurd (List.cons.inj heq).1 h₂
    · rename_i heq
      exact absurd (List.cons.inj heq).1 h₃
    · rename_i heq
      exact absurd (List.cons.inj heq).1 h₄
    · rw [hread]
      rfl

/-- A value that the reader finds is a scalar, or an array or an inline table one level down. -/
theorem value?_cases (h : value? depth s = some (v, r)) :
    (∃ x, v = .scalar (markOf s) x ∧ ((∃ cs, x = .string cs ∧ string? s = some (cs, r)) ∨ plainScalar? s = some (x, r))) ∨
    (∃ d t vs, depth = d + 1 ∧ s = '[' :: t ∧ v = .array (markOf s) vs ∧ arrayItems? (value? d) t = some (vs, r)) ∨
    ∃ d t es, depth = d + 1 ∧ s = '{' :: t ∧ v = .table .inline (some (markOf s)) es ∧
      inlineTable? (value? d) t = some (es, r) := by
  unfold value? at h
  split at h
  · split at h
    · cases h
    · rename_i t _ d
      obtain ⟨⟨vs, r'⟩, hx, he⟩ := Option.map_eq_some_iff.1 h
      cases he
      exact Or.inr (Or.inl ⟨d, t, vs, rfl, rfl, rfl, hx⟩)
  · split at h
    · cases h
    · rename_i t _ d
      obtain ⟨⟨es, r'⟩, hx, he⟩ := Option.map_eq_some_iff.1 h
      cases he
      exact Or.inr (Or.inr ⟨d, t, es, rfl, rfl, rfl, hx⟩)
  · obtain ⟨⟨cs, r'⟩, hx, he⟩ := Option.map_eq_some_iff.1 h
    cases he
    exact Or.inl ⟨_, rfl, Or.inl ⟨cs, rfl, hx⟩⟩
  · obtain ⟨⟨cs, r'⟩, hx, he⟩ := Option.map_eq_some_iff.1 h
    cases he
    exact Or.inl ⟨_, rfl, Or.inl ⟨cs, rfl, hx⟩⟩
  · obtain ⟨⟨x, r'⟩, hx, he⟩ := Option.map_eq_some_iff.1 h
    cases he
    exact Or.inl ⟨_, rfl, Or.inr hx⟩

theorem scalarAt_of_readers (hover : ρ.overflow = false)
    (h : (∃ cs, x = .string cs ∧ string? s = some (cs, r)) ∨ plainScalar? s = some (x, r)) : ScalarAt ρ s x r := by
  rcases h with ⟨cs, rfl, hs⟩ | hs
  · exact .string (str_of_string? hs)
  · obtain ⟨t, ht, rfl⟩ := plain_of_plainScalar? hs
    rw [← hover] at ht
    exact .plain ht

/-- The reader of values follows their notation, at every depth. -/
theorem follows_value (lenient : Bool) (depth : Nat) :
    Follows (value? depth) (ValueAt (Rules.limited lenient) depth) := by
  induction depth with
  | zero =>
    refine ⟨?_, ?_, ValueAt.begins, ValueAt.suffix⟩
    · rintro s v r ⟨x, hx, rfl⟩ hr
      exact value?_of_scalarAt rfl hx hr 0
    · intro s v r h
      rcases value?_cases h with ⟨x, rfl, hx⟩ | ⟨d, t, vs, hd, -⟩ | ⟨d, t, es, hd, -⟩
      · exact ⟨x, scalarAt_of_readers rfl hx, rfl⟩
      · cases hd
      · cases hd
  | succ depth ih =>
    refine ⟨?_, ?_, ValueAt.begins, ValueAt.suffix⟩
    · intro s v r h hr
      cases h with
      | scalar hx => exact value?_of_scalarAt rfl hx hr (depth + 1)
      | array hs =>
        unfold value?
        simp only [arrayItems?_of_items ih hs, Option.map_some]
      | table hs =>
        unfold value?
        simp only [inlineTable?_of_inlineAt ih (Nat.le_refl _) hs, Option.map_some]
    · intro s v r h
      rcases value?_cases h with ⟨x, rfl, hx⟩ | ⟨d, t, vs, hd, rfl, rfl, hs⟩ | ⟨d, t, es, hd, rfl, rfl, hs⟩
      · exact .scalar (scalarAt_of_readers rfl hx)
      · cases hd
        exact .array (items_of_arrayItems? ih hs)
      · cases hd
        exact .table (inlineAt_of_inlineTable? ih rfl hs)

end IconMaker.Toml
