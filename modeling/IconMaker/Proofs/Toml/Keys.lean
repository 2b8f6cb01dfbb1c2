import IconMaker.Proofs.Toml.Strings
import Mathlib.Data.List.TakeDrop

/-
  IconMaker.Proofs.Toml.Keys — what is read again and again, and the notation of keys.

  `Chain` is what a repeated reader does: it reads one item after another until none is there
  (`repeated_eq_iff`, `separated_eq_iff`). A key is one part or several with points between
  them (`KeyPath`); blanks may stand around the points. The reader of keys takes exactly what
  is written so, if something follows that does not belong to a key (`key?_of_keyAt`,
  `keyAt_of_key?`).
-/

namespace IconMaker.Toml

/-! ## One item after another -/

section Repetition

variable {α : Type} {item : List Char → Option (α × List Char)} {s r : List Char} {as : List α}

/-- Items read one after another: what they are, and what is left. -/
inductive Chain (item : List Char → Option (α × List Char)) : List Char → List α → List Char → Prop
  | nil (s : List Char) : Chain item s [] s
  | cons {s s₁ r : List Char} {a : α} {as : List α} : item s = some (a, s₁) → Chain item s₁ as r →
      Chain item s (a :: as) r

theorem chain_repeated (hless : ∀ {s a r}, item s = some (a, r) → r.length < s.length) (s : List Char) :
    Chain item s (repeated item s).1 (repeated item s).2 ∧ item (repeated item s).2 = none := by
  induction hn : s.length using Nat.strong_induction_on generalizing s with
  | _ n ih =>
    subst hn
    rw [repeated]
    cases hs : item s with
    | none => exact ⟨.nil s, hs⟩
    | some x =>
      obtain ⟨a, s₁⟩ := x
      obtain ⟨hchain, hend⟩ := ih _ (hless hs) s₁ rfl
      simp only [if_pos (hless hs)]
      exact ⟨.cons hs hchain, hend⟩

theorem repeated_of_chain (hless : ∀ {s a r}, item s = some (a, r) → r.length < s.length) (h : Chain item s as r)
    (hend : item r = none) : repeated item s = (as, r) := by
  induction h with
  | nil s => rw [repeated, hend]
  | cons hs _ ih =>
    rw [repeated, hs]
    simp only [if_pos (hless hs), ih hend]

/-- An item behind a mark. -/
def behind (mark : Char) (item : List Char → Option (α × List Char)) (s : List Char) : Option (α × List Char) :=
  (expect mark s).bind item

variable {mark : Char}

theorem behind_eq_some_iff {a : α} :
    behind mark item s = some (a, r) ↔ ∃ t, s = mark :: t ∧ item t = some (a, r) := by
  unfold behind expect
  rcases s with _ | ⟨c, s⟩
  · simp
  · by_cases hc : c = mark
    · simp [hc]
    · simp [hc]

theorem behind_eq_none (h : begins (· == mark) s = false) : behind mark item s = none := by
  unfold behind expect
  rcases s with _ | ⟨c, s⟩
  · rfl
  · simp only [begins_cons, beq_eq_false_iff_ne] at h
    simp [h]

/-- A reader that leaves an end of the text. -/
def Leaves (item : List Char → Option (α × List Char)) : Prop := ∀ {s a r}, item s = some (a, r) → r <:+ s

theorem behind_less (hitem : Leaves item) {s r : List Char} {a : α} (h : behind mark item s = some (a, r)) :
    r.length < s.length := by
  obtain ⟨t, rfl, ht⟩ := behind_eq_some_iff.1 h
  have := (hitem ht).length_le
  simp only [List.length_cons]
  omega

theorem separated_of_none (h : item s = none) : separated mark item s = ([], s) := by
  unfold separated
  rw [h]

theorem separated_of_some (hitem : Leaves item) {a : α} {s₁ : List Char} (h : item s = some (a, s₁))
    (hchain : Chain (behind mark item) s₁ as r) (hend : behind mark item r = none) :
    separated mark item s = (a :: as, r) := by
  unfold separated
  rw [h]
  have := repeated_of_chain (fun hs => behind_less hitem hs) hchain hend
  unfold behind at this
  simp only [this]

/-- What `separated` reads. -/
theorem separated_cases (hitem : Leaves item) (h : separated mark item s = (as, r)) :
    (as = [] ∧ r = s ∧ item s = none) ∨
    ∃ a s₁ as', as = a :: as' ∧ item s = some (a, s₁) ∧ Chain (behind mark item) s₁ as' r ∧ behind mark item r = none := by
  cases hs : item s with
  | none =>
    rw [separated_of_none hs] at h
    cases h
    exact Or.inl ⟨rfl, rfl, rfl⟩
  | some x =>
    obtain ⟨a, s₁⟩ := x
    have hless : ∀ {s a r}, behind mark item s = some (a, r) → r.length < s.length := fun hs => behind_less hitem hs
    obtain ⟨hchain, hend⟩ := chain_repeated hless s₁
    rw [separated_of_some hitem hs hchain hend] at h
    cases h
    exact Or.inr ⟨a, s₁, _, rfl, rfl, hchain, hend⟩

end Repetition

/-! ## The notation -/

inductive SimpleKey : List Char → Key → List Char → Prop
  | bare {t r : List Char} : t ≠ [] → (∀ c ∈ t, isBareKey c = true) → SimpleKey (t ++ r) ⟨t, markOf (t ++ r)⟩ r
  | basic {s cs r : List Char} : OneLine '"' true s cs r → SimpleKey ('"' :: s) ⟨cs, markOf ('"' :: s)⟩ r
  | literal {s cs r : List Char} : OneLine '\'' false s cs r → SimpleKey ('\'' :: s) ⟨cs, markOf ('\'' :: s)⟩ r

/-- The parts of a key, with the blanks behind it. -/
inductive KeyPath : List Char → List Key → List Char → Prop
  | last {s s₁ r : List Char} {k : Key} : SimpleKey s k s₁ → White s₁ r → KeyPath s [k] r
  | more {s s₁ s₂ s₃ r : List Char} {k : Key} {ks : List Key} : SimpleKey s k s₁ → White s₁ ('.' :: s₂) →
      White s₂ s₃ → KeyPath s₃ ks r → KeyPath s (k :: ks) r

/-- A key of at most so many parts: those before the last, and the last. -/
def KeyAt (parts : Nat) (s : List Char) (path : List Key) (k : Key) (r : List Char) : Prop :=
  KeyPath s (path ++ [k]) r ∧ path.length < parts

/-- The character may be the first one of a key. -/
def isKeyStart (c : Char) : Bool := isBareKey c || isQuote c

variable {s s₁ r : List Char} {k : Key} {ks path : List Key} {parts : Nat}

theorem SimpleKey.suffix (h : SimpleKey s k r) : r <:+ s := by
  cases h with
  | bare => exact List.suffix_append _ _
  | basic h | literal h => exact h.suffix.trans (List.suffix_cons _ _)

theorem KeyPath.suffix (h : KeyPath s ks r) : r <:+ s := by
  induction h with
  | last hk hw => exact hw.suffix.trans hk.suffix
  | more hk hw hw' _ ih =>
    exact (((ih.trans hw'.suffix).trans (List.suffix_cons _ _)).trans hw.suffix).trans hk.suffix

theorem SimpleKey.begins (h : SimpleKey s k r) : begins isKeyStart s = true := by
  cases h with
  | @bare t r ht hbare =>
    rcases t with _ | ⟨c, t⟩
    · exact absurd rfl ht
    · have hc := hbare c (List.mem_cons_self ..)
      simp [isKeyStart, hc]
  | basic | literal => rfl

theorem KeyPath.begins (h : KeyPath s ks r) : begins isKeyStart s = true := by
  cases h with
  | last hk | more hk => exact hk.begins

/-! ## Reading keys -/

theorem isBareKey_not_quote {c : Char} (h : isBareKey c = true) : c ≠ '"' ∧ c ≠ '\'' := by
  constructor
  · rintro rfl
    exact absurd h (by decide)
  · rintro rfl
    exact absurd h (by decide)

theorem simpleKey?_of_simpleKey (h : SimpleKey s k r) (hr : begins isBareKey r = false) :
    simpleKey? s = some (k, r) := by
  cases h with
  | @bare t r ht hbare =>
    have hspan : (t ++ r).span isBareKey = (t, r) := by
      rw [List.span_eq_takeWhile_dropWhile, List.takeWhile_append_of_pos hbare, List.dropWhile_append_of_pos hbare]
      cases r with
      | nil => simp
      | cons c r =>
        simp only [begins_cons] at hr
        simp [hr]
    rcases t with _ | ⟨c, t⟩
    · exact absurd rfl ht
    · obtain ⟨hd, hs⟩ := isBareKey_not_quote (hbare c (List.mem_cons_self ..))
      rw [List.cons_append] at hspan ⊢
      rw [simpleKey?]
      · rw [hspan]
      · intro _ h
        exact hd (List.cons.inj h).1
      · intro _ h
        exact hs (List.cons.inj h).1
  | basic h => rw [simpleKey?, basic_eq_some_iff.2 h]; rfl
  | literal h => rw [simpleKey?, literal_eq_some_iff.2 h]; rfl

theorem simpleKey_of_simpleKey? (h : simpleKey? s = some (k, r)) : SimpleKey s k r := by
  unfold simpleKey? at h
  split at h
  · obtain ⟨⟨cs, r'⟩, hx, he⟩ := Option.map_eq_some_iff.1 h
    cases he
    exact .basic (basic_eq_some_iff.1 hx)
  · obtain ⟨⟨cs, r'⟩, hx, he⟩ := Option.map_eq_some_iff.1 h
    cases he
    exact .literal (literal_eq_some_iff.1 hx)
  · rw [List.span_eq_takeWhile_dropWhile] at h
    split at h
    · cases h
    · rename_i name r' hne hspan
      cases h
      obtain ⟨htake, hdrop⟩ := Prod.ext_iff.1 hspan
      dsimp only at htake hdrop
      have hs : s = name ++ r := by rw [← htake, ← hdrop, List.takeWhile_append_dropWhile]
      have hname : name ≠ [] := fun e => hne e
      rw [hs]
      exact .bare hname fun c hc => List.mem_takeWhile_imp (htake ▸ hc)

theorem keyPart?_eq_some_iff : keyPart? s = some (k, r) ↔
    ∃ s₁, simpleKey? (skipWhite s) = some (k, s₁) ∧ r = skipWhite s₁ := by
  unfold keyPart?
  constructor
  · intro h
    obtain ⟨⟨k', s₁⟩, hx, he⟩ := Option.map_eq_some_iff.1 h
    cases he
    exact ⟨s₁, hx, rfl⟩
  · rintro ⟨s₁, hx, rfl⟩
    rw [hx]
    rfl

theorem leaves_keyPart? : Leaves keyPart? := by
  intro s k r h
  obtain ⟨s₁, hx, rfl⟩ := keyPart?_eq_some_iff.1 h
  exact ((white_skipWhite s₁).suffix.trans (simpleKey_of_simpleKey? hx).suffix).trans (white_skipWhite s).suffix

/-- The characters that go on with a key. -/
def goesOn (c : Char) : Bool := isBareKey c || isWhite c || c == '.'

theorem goesOn_false {c : Char} (h : goesOn c = false) :
    isBareKey c = false ∧ isWhite c = false ∧ (c == '.') = false := by
  simpa [goesOn, and_assoc] using h

theorem begins_goesOn (h : begins goesOn r = false) :
    begins isBareKey r = false ∧ begins isWhite r = false ∧ begins (· == '.') r = false := by
  cases r with
  | nil => exact ⟨rfl, rfl, rfl⟩
  | cons c r => exact goesOn_false h

theorem keyPart?_of_simpleKey {s₀ : List Char} (hw : White s₀ s) (hk : SimpleKey s k s₁) (hw' : White s₁ r)
    (hr : begins isBareKey r = false) (hr' : begins isWhite r = false) : keyPart? s₀ = some (k, r) := by
  have hs : begins isWhite s = false := by
    refine not_begins hk.begins ?_
    intro c hc
    cases hwhite : isWhite c with
    | false => rfl
    | true =>
      rcases isWhite_iff.1 hwhite with rfl | rfl
      · exact absurd hc (by decide)
      · exact absurd hc (by decide)
  have hbare : begins isBareKey s₁ = false := by
    obtain ⟨w, hwhite, rfl⟩ := hw'
    rcases w with _ | ⟨c, w⟩
    · exact hr
    · have hc := hwhite c (List.mem_cons_self ..)
      rcases isWhite_iff.1 hc with rfl | rfl
      · rfl
      · rfl
  refine keyPart?_eq_some_iff.2 ⟨s₁, ?_, (skipWhite_eq_of_white hw' hr').symm⟩
  rw [skipWhite_eq_of_white hw hs]
  exact simpleKey?_of_simpleKey hk hbare

theorem chain_of_keyPath {s₀ : List Char} (h : KeyPath s ks r) (hw : White s₀ s) (hr : begins goesOn r = false) :
    ∃ k ks' s', ks = k :: ks' ∧ keyPart? s₀ = some (k, s') ∧ Chain (behind '.' keyPart?) s' ks' r ∧
      behind '.' keyPart? r = none := by
  induction h generalizing s₀ with
  | @last s s₁ r k hk hw' =>
    obtain ⟨hbare, hwhite, hdot⟩ := begins_goesOn hr
    exact ⟨k, [], r, rfl, keyPart?_of_simpleKey hw hk hw' hbare hwhite, .nil r, behind_eq_none hdot⟩
  | @more s s₁ s₂ s₃ r k ks hk hw' hw'' _ ih =>
    obtain ⟨k', ks', s', rfl, hpart, hchain, hend⟩ := ih hw'' hr
    refine ⟨k, k' :: ks', '.' :: s₂, rfl, keyPart?_of_simpleKey hw hk hw' rfl rfl, ?_, hend⟩
    exact .cons (behind_eq_some_iff.2 ⟨s₂, rfl, hpart⟩) hchain

theorem keyPath_of_chain {s₀ s' : List Char} (hpart : keyPart? s₀ = some (k, s'))
    (h : Chain (behind '.' keyPart?) s' ks r) : KeyPath (skipWhite s₀) (k :: ks) r := by
  induction h generalizing s₀ k with
  | nil s' =>
    obtain ⟨s₁, hx, rfl⟩ := keyPart?_eq_some_iff.1 hpart
    exact .last (simpleKey_of_simpleKey? hx) (white_skipWhite s₁)
  | cons hnext _ ih =>
    obtain ⟨t, rfl, ht⟩ := behind_eq_some_iff.1 hnext
    obtain ⟨s₁, hx, he⟩ := keyPart?_eq_some_iff.1 hpart
    refine .more (simpleKey_of_simpleKey? hx) ?_ (white_skipWhite t) (ih ht)
    rw [he]
    exact white_skipWhite s₁

theorem separated_of_keyPath {s₀ : List Char} (h : KeyPath s ks r) (hw : White s₀ s) (hr : begins goesOn r = false) :
    separated '.' keyPart? s₀ = (ks, r) := by
  obtain ⟨k, ks', s', rfl, hpart, hchain, hend⟩ := chain_of_keyPath h hw hr
  exact separated_of_some leaves_keyPart? hpart hchain hend

theorem key?_of_keyAt {s₀ : List Char} (h : KeyAt parts s path k r) (hparts : parts ≤ maxDepth) (hw : White s₀ s)
    (hr : begins goesOn r = false) : key? s₀ = some (path, k, r) := by
  obtain ⟨hpath, hlen⟩ := h
  have hle : (path ++ [k]).length ≤ maxDepth := by
    rw [List.length_append, List.length_singleton]
    omega
  unfold key?
  rw [separated_of_keyPath hpath hw hr]
  simp only [List.getLast?_concat, if_pos hle, List.dropLast_concat]

/-- No key has more parts than the reader takes. -/
theorem key?_eq_none (h : KeyPath s ks r) (hlen : maxDepth < ks.length) (hr : begins goesOn r = false) :
    key? s = none := by
  unfold key?
  rw [separated_of_keyPath h (.refl _) hr]
  simp only [if_neg (Nat.not_le.2 hlen)]
  cases ks.getLast? <;> rfl

theorem keyAt_of_key? (h : key? s = some (path, k, r)) : KeyAt maxDepth (skipWhite s) path k r := by
  unfold key? at h
  split at h
  rename_i ks r' hsep
  split at h
  · rename_i k' hlast
    split at h
    · rename_i hle
      cases h
      obtain ⟨ks', rfl⟩ := List.getLast?_eq_some_iff.1 hlast
      rw [List.dropLast_concat]
      rcases separated_cases leaves_keyPart? hsep with ⟨hnil, -⟩ | ⟨a, s₁, as, hks, ha, hchain, -⟩
      · simp at hnil
      · refine ⟨?_, ?_⟩
        · rw [hks]
          exact keyPath_of_chain ha hchain
        · rw [List.length_append, List.length_singleton] at hle
          omega
    · cases h
  · cases h

end IconMaker.Toml
