import IconMaker.Proofs.Toml.Tables
import IconMaker.Proofs.Toml.Values

/-
  IconMaker.Proofs.Toml.Document — the notation of documents, and that the reader follows it.

  `Lines` is a text as lines: empty ones, comments, and those that say something. `Document` is
  a text whose statements build a tree of tables. The reader accepts exactly the documents of
  the lenient rules and returns their tree (`parse_eq_some_iff`).
-/

namespace IconMaker.Toml

/-! ## The notation -/

/-- What a line says, from its first character that is no blank. A header's mark is that of its
    first bracket. -/
inductive Stated (ρ : Rules) : Notation Statement
  | pair {s r : List Char} {path : List Key} {k : Key} {v : Value} : PairAt ρ (ValueAt ρ ρ.nesting) s (path, k, v) r →
      Stated ρ s (.pair path k v) r
  | table {s s₁ r : List Char} {path : List Key} {k : Key} : White s s₁ → KeyAt ρ.parts s₁ path k (']' :: r) →
      Stated ρ ('[' :: s) (.table path k (markOf ('[' :: s))) r
  | element {s s₁ r : List Char} {path : List Key} {k : Key} : White s s₁ →
      KeyAt ρ.parts s₁ path k (']' :: ']' :: r) →
      Stated ρ ('[' :: '[' :: s) (.element path k (markOf ('[' :: '[' :: s))) r

/-- The lines of a text. -/
inductive Lines (ρ : Rules) : List Char → List Statement → Prop
  | done : Lines ρ [] []
  | blank {s r : List Char} {xs : List Statement} : LineEnd s r → Lines ρ r xs → Lines ρ s xs
  | statement {s s₁ s₂ r : List Char} {x : Statement} {xs : List Statement} : White s s₁ → Stated ρ s₁ x s₂ →
      LineEnd s₂ r → Lines ρ r xs → Lines ρ s (x :: xs)

/-- A text with or without a byte order mark. -/
def Marked (text s : List Char) : Prop := text = s ∨ text = byteOrderMark :: s

/-- A document and its top-level entries. -/
def Document (ρ : Rules) (text : List Char) (es : Entries) : Prop :=
  ∃ s xs, Marked text s ∧ Lines ρ s xs ∧ Builds ρ.lenient [] [] xs es

variable {ρ : Rules} {s s₁ s₂ r text : List Char} {x : Statement} {xs : List Statement} {es : Entries} {st st' : State}
  {lenient : Bool}

/-! ## Lines -/

theorem length_lt_of_lineEnd (h : LineEnd s r) (hs : s ≠ []) : r.length < s.length := by
  obtain ⟨s₁, s₂, hw, hc, he⟩ := h
  have hlen : s₂.length ≤ s.length := by
    rcases hc with rfl | hc
    · exact hw.suffix.length_le
    · exact (hc.suffix.trans hw.suffix).length_le
  cases he with
  | text => exact List.length_pos_iff.2 hs
  | line hb =>
    refine Nat.lt_of_lt_of_le ?_ hlen
    cases hb with
    | lineFeed => exact Nat.lt_succ_self _
    | carriageReturn => exact Nat.lt_add_of_pos_right (by decide : 0 < 2)

theorem lineEnd?_skipWhite (s : List Char) : lineEnd? (skipWhite s) = lineEnd? s := by
  unfold lineEnd?
  rw [skipWhite_eq_self (begins_skipWhite s)]

theorem Stated.begins (h : Stated ρ s x r) : begins isKeyStart s = true ∨ begins (· == '[') s = true := by
  cases h with
  | pair h => exact Or.inl h.begins
  | table | element => exact Or.inr rfl

theorem Stated.not_white (h : Stated ρ s x r) : Toml.begins isWhite s = false := by
  rcases h.begins with h | h
  · exact not_begins h fun c hc => (isKeyStart_solid hc).2.2.2
  · refine not_begins h ?_
    intro c hc
    rw [beq_iff_eq.1 hc]
    rfl

theorem Stated.length_lt (h : Stated ρ s x r) : r.length < s.length := by
  cases h with
  | pair h =>
    cases h with
    | mk hk hw hv hw' =>
      exact Nat.lt_of_le_of_lt ((hw'.suffix.trans hv.suffix).trans hw.suffix).length_le
        (Nat.lt_of_succ_le hk.1.suffix.length_le)
  | table hw hk =>
    exact Nat.lt_succ_of_le (((List.suffix_cons _ _).trans hk.1.suffix).trans hw.suffix).length_le
  | element hw hk =>
    have hsuffix := (((List.suffix_cons _ _).trans (List.suffix_cons _ _)).trans hk.1.suffix).trans hw.suffix
    exact Nat.lt_succ_of_le (hsuffix.trans (List.suffix_cons _ _)).length_le

theorem eq_of_white (h : White s s₁) (hs : begins isWhite s = false) : s₁ = s := by
  obtain ⟨w, hw, rfl⟩ := h
  rcases w with _ | ⟨c, w⟩
  · rfl
  · rw [List.cons_append, begins_cons, hw c (List.mem_cons_self ..)] at hs
    cases hs

/-- The reader of a line where nothing is said. -/
theorem line?_of_lineEnd (h : LineEnd s r) (hs : s ≠ []) (hw : begins isWhite s = false) (st : State) :
    line? st s = some (st, r) := by
  have hread := lineEnd?_eq_some_iff.2 h
  obtain ⟨s₁, s₂, hw', hc, he⟩ := h
  obtain rfl := eq_of_white hw' hw
  rcases hc with rfl | ⟨t, -, rfl⟩
  · cases he with
    | text => exact absurd rfl hs
    | line hb => cases hb <;> rfl
  · simp only [line?, hread, Option.map_some]

theorem header_not_bracket {path : List Key} {k : Key} {parts : Nat} (hw : White s s₁)
    (hk : KeyAt parts s₁ path k r) :
    ∀ t, s ≠ '[' :: t := by
  rintro t rfl
  obtain rfl := eq_of_white hw rfl
  have hstart : isKeyStart '[' = true := hk.1.begins
  exact absurd hstart (by decide)

/-- A line that begins with a key is a pair. -/
theorem line?_of_key (h : begins isKeyStart s = true) (st : State) : line? st s =
    (pair? (value? maxDepth) s).bind fun p => (lineEnd? p.2).bind fun r =>
      (st.run (.pair p.1.1 p.1.2.1 p.1.2.2)).map fun st' => (st', r) := by
  obtain ⟨c, t, rfl, hc⟩ := exists_of_begins h
  have hne : ∀ d, isKeyStart d = false → c ≠ d := by
    rintro d hd rfl
    rw [hc] at hd
    cases hd
  unfold line?
  split
  · exact absurd (List.cons.inj ‹_›).1 (hne _ rfl)
  · exact absurd (List.cons.inj ‹_›).1 (hne _ rfl)
  · exact absurd (List.cons.inj ‹_›).1 (hne _ rfl)
  · exact absurd (List.cons.inj ‹_›).1 (hne _ rfl)
  · exact absurd (List.cons.inj ‹_›).1 (hne _ rfl)
  · simp only [Option.bind_eq_bind, Option.pure_def, State.run, Option.map_eq_bind, Function.comp_def]

/-- The reader of a line that says something. -/
theorem line?_of_stated (h : Stated (Rules.limited lenient) s x s₁) (he : LineEnd s₁ r) (st : State) :
    line? st s = (st.run x).map fun st' => (st', r) := by
  have hread := lineEnd?_eq_some_iff.2 he
  cases h with
  | @pair _ _ path k v hp =>
    have hpair := pair?_of_pairAt (follows_value lenient maxDepth) hp (Nat.le_refl _) (.refl s) (Ended.of_lineEnd he)
    rw [line?_of_key hp.begins, hpair, Option.bind_some, lineEnd?_skipWhite, hread, Option.bind_some]
  | @table s s₁' _ path k hw hk =>
    have hkey := key?_of_keyAt hk (Nat.le_refl _) hw rfl
    unfold line?
    split
    · exact absurd (List.cons.inj ‹_›).2 (header_not_bracket hw hk _)
    · rename_i heq
      cases heq
      simp only [hkey, expect_cons, hread, Option.bind_eq_bind, Option.bind_some, Option.pure_def, State.run,
        Option.map_eq_bind, Function.comp_def]
    all_goals simp_all
  | @element s s₁' _ path k hw hk =>
    have hkey := key?_of_keyAt hk (Nat.le_refl _) hw rfl
    simp only [line?, hkey, expect_cons, hread, Option.bind_eq_bind, Option.bind_some, Option.pure_def, State.run,
      Option.map_eq_bind, Function.comp_def]

/-- A line that the reader accepts says nothing or one statement. -/
theorem line?_cases (lenient : Bool) (h : line? st s = some (st', r)) (hw : begins isWhite s = false) :
    (st' = st ∧ LineEnd s r) ∨
    ∃ x s₁, Stated (Rules.limited lenient) s x s₁ ∧ LineEnd s₁ r ∧ st.run x = some st' := by
  unfold line? at h
  split at h
  · rename_i t
    right
    simp only [Option.bind_eq_bind, Option.bind_eq_some_iff, Prod.exists, Option.pure_def, Option.some.injEq,
      Prod.mk.injEq] at h
    obtain ⟨path, k, t₁, hk, t₂, he₁, t₃, he₂, t₄, hend, st₁, hrun, rfl, rfl⟩ := h
    obtain rfl := eq_of_expect he₁
    obtain rfl := eq_of_expect he₂
    exact ⟨_, t₃, .element (white_skipWhite t) (keyAt_of_key? hk), lineEnd?_eq_some_iff.1 hend, hrun⟩
  · rename_i t _
    right
    simp only [Option.bind_eq_bind, Option.bind_eq_some_iff, Prod.exists, Option.pure_def, Option.some.injEq,
      Prod.mk.injEq] at h
    obtain ⟨path, k, t₁, hk, t₂, he₁, t₄, hend, st₁, hrun, rfl, rfl⟩ := h
    obtain rfl := eq_of_expect he₁
    exact ⟨_, t₂, .table (white_skipWhite t) (keyAt_of_key? hk), lineEnd?_eq_some_iff.1 hend, hrun⟩
  · left
    obtain ⟨r', hr, he⟩ := Option.map_eq_some_iff.1 h
    cases he
    exact ⟨rfl, lineEnd?_eq_some_iff.1 hr⟩
  · left
    cases h
    exact ⟨rfl, _, _, .refl _, Or.inl rfl, .line (.lineFeed _)⟩
  · left
    cases h
    exact ⟨rfl, _, _, .refl _, Or.inl rfl, .line (.carriageReturn _)⟩
  · right
    simp only [Option.bind_eq_bind, Option.bind_eq_some_iff, Prod.exists, Option.pure_def, Option.some.injEq,
      Prod.mk.injEq] at h
    obtain ⟨path, k, v, t₁, hp, t₂, hend, st₁, hrun, rfl, rfl⟩ := h
    obtain ⟨hpair, -⟩ := pairAt_of_pair? (ρ := Rules.limited lenient) (follows_value lenient maxDepth) rfl hp
    rw [skipWhite_eq_self hw] at hpair
    exact ⟨_, t₁, .pair hpair, lineEnd?_eq_some_iff.1 hend, hrun⟩

theorem lines?_end (hs : skipWhite s = []) (st : State) : lines? st s = some st := by
  rw [lines?, if_pos hs]

theorem lines?_of_lines (h : Lines (Rules.limited lenient) s xs) (st : State) :
    lines? st s = xs.foldlM State.run st := by
  induction h generalizing st with
  | done => exact lines?_end rfl st
  | @blank s r xs he _ ih =>
    have he' : LineEnd (skipWhite s) r := by
      rw [← lineEnd?_eq_some_iff, lineEnd?_skipWhite]
      exact lineEnd?_eq_some_iff.2 he
    by_cases hs : skipWhite s = []
    · have hr : r = [] := by
        rw [hs] at he'
        exact List.suffix_nil.1 he'.suffix
      subst hr
      rw [← ih st, lines?_end hs, lines?_end rfl]
    · have hlen : r.length < s.length :=
        Nat.lt_of_lt_of_le (length_lt_of_lineEnd he' hs) (white_skipWhite s).suffix.length_le
      rw [lines?, if_neg hs, line?_of_lineEnd he' hs (begins_skipWhite s) st]
      exact (if_pos hlen).trans (ih st)
  | @statement s s₁ s₂ r x xs hw hx he _ ih =>
    have hskip : skipWhite s = s₁ := skipWhite_eq_of_white hw hx.not_white
    have hs₁ : s₁ ≠ [] := List.length_pos_iff.1 (Nat.zero_lt_of_lt hx.length_lt)
    have hlen : r.length < s.length :=
      Nat.lt_of_le_of_lt he.suffix.length_le (Nat.lt_of_lt_of_le hx.length_lt hw.suffix.length_le)
    rw [lines?, hskip, if_neg hs₁, line?_of_stated hx he st, List.foldlM_cons]
    cases st.run x with
    | none => rfl
    | some st' => exact (if_pos hlen).trans (ih st')

theorem lines_of_lines? (lenient : Bool) (h : lines? st s = some st') :
    ∃ xs, Lines (Rules.limited lenient) s xs ∧ xs.foldlM State.run st = some st' := by
  induction st, s using lines?.induct with
  | case1 st s hs =>
    rw [lines?_end hs] at h
    cases h
    refine ⟨[], .blank ?_ .done, rfl⟩
    rw [← lineEnd?_eq_some_iff, ← lineEnd?_skipWhite, hs]
    rfl
  | case2 st s hs hline =>
    rw [lines?, if_neg hs, hline] at h
    cases h
  | case3 st s hs st₁ r hline hlen ih =>
    rw [lines?, if_neg hs, hline] at h
    obtain ⟨xs, hxs, hrun⟩ := ih ((if_pos hlen).symm.trans h)
    rcases line?_cases lenient hline (begins_skipWhite s) with ⟨rfl, he⟩ | ⟨x, s₁, hx, he, hrun₁⟩
    · refine ⟨xs, .blank ?_ hxs, hrun⟩
      rw [← lineEnd?_eq_some_iff, ← lineEnd?_skipWhite]
      exact lineEnd?_eq_some_iff.2 he
    · refine ⟨x :: xs, .statement (white_skipWhite s) hx he hxs, ?_⟩
      rw [List.foldlM_cons, hrun₁]
      exact hrun
  | case4 st s hs st₁ r hline hlen =>
    rw [lines?, if_neg hs, hline] at h
    cases (if_neg hlen).symm.trans h

/-! ## Documents -/

theorem Lines.not_mark (h : Lines ρ s xs) : ∀ t, s ≠ byteOrderMark :: t := by
  rintro t rfl
  cases h with
  | blank he =>
    have hnone : lineEnd? (byteOrderMark :: t) = none := rfl
    rw [lineEnd?_eq_some_iff.2 he] at hnone
    cases hnone
  | statement hw hx =>
    obtain rfl := eq_of_white hw rfl
    rcases hx.begins with h | h
    · rw [begins_cons] at h
      exact absurd h (by decide)
    · cases h

theorem dropByteOrderMark_of_marked (h : Marked text s) (hs : Lines ρ s xs) : dropByteOrderMark text = s := by
  rcases h with rfl | rfl
  · rcases text with _ | ⟨c, t⟩
    · rfl
    · refine if_neg ?_
      rintro rfl
      exact hs.not_mark t rfl
  · rfl

theorem marked_dropByteOrderMark (text : List Char) : Marked text (dropByteOrderMark text) := by
  rcases text with _ | ⟨c, t⟩
  · exact Or.inl rfl
  · by_cases hc : c = byteOrderMark
    · exact Or.inr (by rw [dropByteOrderMark, if_pos hc, hc])
    · exact Or.inl (if_neg hc).symm

/-- The reader returns the tree of a document. What is a document strictly is one leniently. -/
theorem parse_of_document (h : Document (Rules.limited lenient) text es) : parse text = some es := by
  obtain ⟨s, xs, hmark, hxs, hbuild⟩ := h
  have hlenient : Builds true [] [] xs es := by
    cases lenient with
    | false => exact hbuild.mono
    | true => exact hbuild
  unfold parse
  rw [dropByteOrderMark_of_marked hmark hxs, lines?_of_lines hxs]
  exact (State.close_runs_iff (show State.close ⟨[], none⟩ = some [] from rfl)).2 hlenient

/-- The reader accepts exactly the documents of the lenient rules. -/
theorem parse_eq_some_iff : parse text = some es ↔ Document (Rules.limited true) text es := by
  refine ⟨fun h => ?_, parse_of_document⟩
  obtain ⟨st, hlines, hclose⟩ := Option.bind_eq_some_iff.1 h
  obtain ⟨xs, hxs, hrun⟩ := lines_of_lines? true hlines
  refine ⟨_, xs, marked_dropByteOrderMark text, hxs, ?_⟩
  refine (State.close_runs_iff (show State.close ⟨[], none⟩ = some [] from rfl)).1 ?_
  rw [hrun, Option.bind_some, hclose]

/-- One line, with a bare key. -/
theorem lines_of_value (name : List Char) {t : List Char} {v : Value} (hname : name ≠ [])
    (hbare : ∀ c ∈ name, isBareKey c = true) (hparts : 0 < ρ.parts) (hv : ValueAt ρ ρ.nesting t v []) :
    Lines ρ (name ++ '=' :: t) [.pair [] ⟨name, markOf (name ++ '=' :: t)⟩ v] := by
  have hkey : KeyAt ρ.parts (name ++ '=' :: t) [] ⟨name, markOf (name ++ '=' :: t)⟩ ('=' :: t) :=
    ⟨.last (.bare hname hbare) (.refl _), hparts⟩
  exact .statement (.refl _) (.pair (.mk hkey (.refl _) hv (.refl _))) ⟨[], [], .refl _, Or.inl rfl, .text⟩ .done

/-- A document of one line, with a bare key. -/
theorem document_of_value (name : List Char) {t : List Char} {v : Value} (hname : name ≠ [])
    (hbare : ∀ c ∈ name, isBareKey c = true)
    (hparts : 0 < ρ.parts) (hv : ValueAt ρ ρ.nesting t v []) :
    Document ρ (name ++ '=' :: t) [(⟨name, markOf (name ++ '=' :: t)⟩, v)] :=
  ⟨_, _, Or.inl rfl, lines_of_value name hname hbare hparts hv, .cons (.pair (.here (.here ⟨by simp, rfl, rfl⟩))) .nil⟩

/-- A document of one line, with a dotted key. -/
theorem document_of_path {k₀ k : Key} {path : List Key} {t : List Char} {v : Value}
    (hk : KeyAt ρ.parts s (k₀ :: path) k ('=' :: t)) (hv : ValueAt ρ ρ.nesting t v []) :
    ∃ sub, Document ρ s [(k₀, .table .dotted none sub)] := by
  have hline : Lines ρ s [.pair (k₀ :: path) k v] :=
    .statement (.refl _) (.pair (.mk hk (.refl _) hv (.refl _))) ⟨[], [], .refl _, Or.inl rfl, .text⟩ .done
  obtain ⟨sub, hsub⟩ := exists_into_adds ρ.lenient (k₀ :: path) k v (List.cons_ne_nil _ _) path
  exact ⟨sub, s, _, Or.inl rfl, hline, .cons (.pair (.here (.fresh rfl hsub))) .nil⟩

/-- A text that begins with a key but not with a pair. -/
theorem parse_eq_none_of_pair? {t : List Char} (hstart : begins isKeyStart t = true)
    (hpair : pair? (value? maxDepth) t = none) : parse t = none := by
  have hwhite : skipWhite t = t := skipWhite_eq_self (not_begins hstart fun c hc => (isKeyStart_solid hc).2.2.2)
  have hmark : dropByteOrderMark t = t := by
    obtain ⟨c, r, rfl, hc⟩ := exists_of_begins hstart
    refine if_neg ?_
    rintro rfl
    exact absurd hc (by decide)
  have hne : t ≠ [] := by
    rintro rfl
    cases hstart
  rw [parse, hmark, lines?, hwhite, if_neg hne, line?_of_key hstart, hpair]
  rfl

/-- A text of one line, with a bare key and something behind it that is no value. -/
theorem parse_eq_none (name t : List Char) (hname : name ≠ []) (hbare : ∀ c ∈ name, isBareKey c = true)
    (hv : value? maxDepth (skipWhite t) = none) : parse (name ++ '=' :: t) = none := by
  have hkey : KeyAt maxDepth (name ++ '=' :: t) [] ⟨name, markOf (name ++ '=' :: t)⟩ ('=' :: t) :=
    ⟨.last (.bare hname hbare) (.refl _), by decide⟩
  refine parse_eq_none_of_pair? hkey.1.begins ?_
  unfold pair?
  simp only [key?_of_keyAt hkey (Nat.le_refl _) (.refl _) rfl, expect_cons, hv, Option.bind_eq_bind, Option.bind_some,
    Option.bind_none]

/-- A text that begins with a key of too many parts. -/
theorem parse_eq_none_of_parts {ks : List Key} (h : KeyPath s ks r) (hlen : maxDepth < ks.length)
    (hr : begins goesOn r = false) : parse s = none := by
  refine parse_eq_none_of_pair? h.begins ?_
  unfold pair?
  rw [key?_eq_none h hlen hr]
  rfl

end IconMaker.Toml
