import IconMaker.CommandLine.Reader
import IconMaker.Proofs.Text.Utf8

/-
  IconMaker.Proofs.CommandLine.Steps — everything that one argument can do.

  `Step` lists the ways in which an argument is taken, each with what has to hold for it:
  `--` ends the options, a value stands alone behind its option, an option begins without a
  value, an option comes with its value. `step_eq_ok_iff`: the reader takes an argument exactly
  in these ways. What is said of whole command lines goes through the constructors of `Step`
  and not through the definition of `step`.
-/

namespace IconMaker.CommandLine

/-- `-` and the option's letter. -/
def Opt.short (o : Opt) : Bytes := dash :: String.utf8EncodeChar o.letter

/-- `--` and the option's name. -/
def Opt.long (o : Opt) : Bytes := dash :: dash :: Text.utf8 o.name.toList

/-- The argument that ends the options. -/
def dashes : Bytes := [dash, dash]

/-- A value that is an argument of its own: it does not look like an option. -/
def Standalone (v : Bytes) : Prop := v = [dash] ∨ v.head? ≠ some dash

/-- The argument names the option and has no value in it. -/
def Names (o : Opt) (a : Bytes) : Prop := a = o.short ∨ a = o.long

/-- The argument names the option and has the value in it. -/
inductive Attaches (o : Opt) (v : Bytes) : Bytes → Prop
  | letter : v ≠ [] → v.head? ≠ some equals → Attaches o v (o.short ++ v)
  | letterEquals : Attaches o v (o.short ++ equals :: v)
  | nameEquals : Attaches o v (o.long ++ equals :: v)

/-- The state that an argument may lead to. -/
inductive Step (st : State) (a : Bytes) : State → Prop
  | ends : a = dashes → Step st a { st with ended := true }
  | holds {o : Opt} : st.pending = .awaiting o → Standalone a → Step st a { st with pending := .holding o a }
  | begins {o : Opt} {f : Flags} : Names o a → settle st.flags st.pending = .ok f →
      Step st a ⟨f, .awaiting o, st.ended⟩
  | attaches {o : Opt} {v : Bytes} {f f' : Flags} : Attaches o v a → settle st.flags st.pending = .ok f →
      accept f o v = .ok f' → Step st a ⟨f', .none, st.ended⟩

/-! ## Letters and names -/

theorem optLettered_iff {c : Char} {o : Opt} : (Opt.all.find? fun o => o.letter == c) = some o ↔ o.letter = c := by
  constructor
  · intro h
    simpa using List.find?_some h
  · intro h
    subst h
    cases o <;> rfl

theorem optNamed?_iff {n : Bytes} {o : Opt} : optNamed? n = some o ↔ Text.utf8 o.name.toList = n := by
  constructor
  · intro h
    simpa using List.find?_some h
  · intro h
    subst h
    cases o <;> decide

theorem equals_notMem_name (o : Opt) : equals ∉ Text.utf8 o.name.toList := by
  cases o <;> decide

theorem short_eq (o : Opt) : ∃ b, b ≠ dash ∧ String.utf8EncodeChar o.letter = [b] := by
  cases o <;> exact ⟨_, by decide, rfl⟩

theorem splitValue_cons (b : UInt8) (r : Bytes) :
    splitValue (b :: r) = if b = equals then ([], some r) else (b :: (splitValue r).1, (splitValue r).2) := by
  by_cases hb : b = equals
  · simp [splitValue, List.span_eq_takeWhile_dropWhile, hb]
  · rw [if_neg hb, splitValue, splitValue, List.span_eq_takeWhile_dropWhile, List.span_eq_takeWhile_dropWhile,
      List.takeWhile_cons_of_pos (by simpa using hb), List.dropWhile_cons_of_pos (by simpa using hb)]
    cases r.dropWhile (· ≠ equals) <;> rfl

/-- A value behind its sign, if there is one. -/
def signed : Option Bytes → Bytes
  | none => []
  | some v => equals :: v

/-- The name ends at the first `=`. -/
theorem splitValue_eq_iff {a n : Bytes} {v : Option Bytes} :
    splitValue a = (n, v) ↔ equals ∉ n ∧ a = n ++ signed v := by
  induction a generalizing n with
  | nil =>
    cases v with
    | none => cases n <;> simp [splitValue, signed]
    | some v => simp [splitValue, signed]
  | cons b r ih =>
    rw [splitValue_cons]
    by_cases hb : b = equals
    · subst hb
      cases n with
      | nil => cases v <;> simp [signed]
      | cons b' n =>
        simp only [if_pos, Prod.mk.injEq, List.cons_append, List.cons.injEq, List.mem_cons, not_or]
        constructor
        · rintro ⟨h, -⟩
          cases h
        · rintro ⟨⟨h, -⟩, h', -⟩
          exact absurd h' h
    · rw [if_neg hb]
      cases n with
      | nil => cases v <;> simp [signed, hb]
      | cons b' n =>
        simp only [Prod.mk.injEq, List.cons.injEq, List.mem_cons, not_or, List.cons_append]
        constructor
        · rintro ⟨⟨rfl, rfl⟩, rfl⟩
          obtain ⟨h1, h2⟩ := ih.1 rfl
          exact ⟨⟨Ne.symm hb, h1⟩, rfl, h2⟩
        · rintro ⟨⟨-, h1⟩, rfl, h2⟩
          have := ih.2 ⟨h1, h2⟩
          rw [this]
          exact ⟨⟨rfl, rfl⟩, rfl⟩

/-! ## One argument -/

variable {st st' : State} {a : Bytes}

theorem showNotice_ne_ok (st : State) (n : Notice) (long : Bool) : showNotice st n long ≠ .ok st' := by
  unfold showNotice
  cases settle st.flags st.pending with
  | error e => exact fun h => by cases h
  | ok f => cases n <;> exact fun h => by cases h

/-- The state after an option with the value that comes with it. -/
theorem begin_eq_ok_iff {o : Opt} {v : Option Bytes} : begin st o v = .ok st' ↔
    ∃ f, settle st.flags st.pending = .ok f ∧
      match v with
      | none => st' = ⟨f, .awaiting o, st.ended⟩
      | some v => ∃ f', accept f o v = .ok f' ∧ st' = ⟨f', .none, st.ended⟩ := by
  unfold begin
  cases settle st.flags st.pending with
  | error e => simp [bind, Except.bind]
  | ok f =>
    cases v with
    | none => simp [bind, Except.bind, pure, Except.pure, eq_comm]
    | some v => cases h : accept f o v <;> simp [bind, Except.bind, pure, Except.pure, eq_comm, h]

theorem exists_of_longOption {r : Bytes} (h : longOption st r = .ok st') :
    ∃ o v, r = Text.utf8 o.name.toList ++ signed v ∧ begin st o v = .ok st' := by
  cases hs : splitValue r with
  | mk n v =>
    simp only [longOption, hs] at h
    cases ho : optNamed? n with
    | some o =>
      rw [ho] at h
      obtain ⟨-, hr⟩ := splitValue_eq_iff.1 hs
      rw [optNamed?_iff] at ho
      exact ⟨o, v, ho ▸ hr, h⟩
    | none =>
      rw [ho] at h
      cases hn : noticeNamed? n with
      | none => simp [hn] at h
      | some m =>
        rw [hn] at h
        cases v with
        | some v => cases h
        | none => exact absurd h (showNotice_ne_ok _ _ _)

theorem attachedValue_eq_none_iff {r : Bytes} : attachedValue r = none ↔ r = [] := by
  cases r with
  | nil => simp [attachedValue]
  | cons b r =>
    rw [attachedValue]
    split <;> simp

theorem attachedValue_eq_some_iff {r v : Bytes} :
    attachedValue r = some v ↔ r = equals :: v ∨ v ≠ [] ∧ v.head? ≠ some equals ∧ r = v := by
  cases r with
  | nil =>
    constructor
    · intro h
      cases h
    · rintro (h | ⟨hv, -, rfl⟩)
      · cases h
      · exact absurd rfl hv
  | cons b r =>
    rw [attachedValue]
    by_cases hb : b = equals
    · rw [if_pos hb, hb]
      constructor
      · intro h
        exact .inl (congrArg _ (Option.some.inj h))
      · rintro (h | ⟨-, hv, rfl⟩)
        · rw [(List.cons.inj h).2]
        · simp at hv
    · rw [if_neg hb]
      constructor
      · intro h
        cases h
        exact .inr ⟨List.cons_ne_nil _ _, by simpa using hb, rfl⟩
      · rintro (h | ⟨-, -, rfl⟩)
        · exact absurd (List.cons.inj h).1 hb
        · rfl

theorem exists_of_shortOption {r : Bytes} (h : shortOption st r = .ok st') :
    ∃ o t, r = String.utf8EncodeChar o.letter ++ t ∧ begin st o (attachedValue t) = .ok st' := by
  cases r with
  | nil => cases h
  | cons b r =>
    simp only [shortOption] at h
    cases hp : Text.firstPiece b r with
    | mk p t =>
      cases p with
      | broken bs => simp [hp] at h
      | char c =>
        simp only [hp] at h
        rw [Text.firstPiece_eq_char_iff] at hp
        cases ho : Opt.all.find? fun o => o.letter == c with
        | some o =>
          rw [ho] at h
          rw [optLettered_iff] at ho
          exact ⟨o, t, ho ▸ hp, h⟩
        | none =>
          rw [ho] at h
          cases hn : Notice.all.find? fun n => n.letter == c with
          | none => simp [hn] at h
          | some n =>
            simp only [hn] at h
            exact absurd h (showNotice_ne_ok _ _ _)

theorem loneArgument_eq_ok_iff : loneArgument st a = .ok st' ↔
    ∃ o, st.pending = .awaiting o ∧ st' = { st with pending := .holding o a } := by
  unfold loneArgument
  split <;> simp_all [eq_comm]

/-- How the reader sorts arguments. -/
theorem argument_cases (a : Bytes) : Standalone a ∨ a = dashes ∨ (∃ r, r ≠ [] ∧ a = dash :: dash :: r) ∨
    ∃ b r, b ≠ dash ∧ a = dash :: b :: r := by
  rcases a with _ | ⟨x, _ | ⟨y, r⟩⟩
  · exact .inl (.inr (by simp))
  · by_cases hx : x = dash
    · exact .inl (.inl (by rw [hx]))
    · exact .inl (.inr (by simpa using hx))
  · by_cases hx : x = dash
    · subst hx
      by_cases hy : y = dash
      · subst hy
        by_cases hr : r = []
        · exact .inr (.inl (by rw [hr]; rfl))
        · exact .inr (.inr (.inl ⟨r, hr, rfl⟩))
      · exact .inr (.inr (.inr ⟨y, r, hy, rfl⟩))
    · exact .inl (.inr (by simpa using hx))

theorem step_standalone (he : st.ended = false) (ha : Standalone a) : step st a = loneArgument st a := by
  unfold step
  rw [he, if_neg (by simp)]
  split
  · rename_i x y r
    rcases ha with ha | ha
    · cases ha
    · rw [if_neg (by simpa using ha)]
  · rfl

theorem step_dashes (he : st.ended = false) : step st dashes = .ok { st with ended := true } := by
  unfold step dashes
  rw [he, if_neg (by simp)]
  rfl

theorem step_long (he : st.ended = false) {r : Bytes} (hr : r ≠ []) :
    step st (dash :: dash :: r) = longOption st r := by
  unfold step
  rw [he, if_neg (by simp)]
  simp only [if_pos, if_neg hr]

theorem step_short (he : st.ended = false) {b : UInt8} {r : Bytes} (hb : b ≠ dash) :
    step st (dash :: b :: r) = shortOption st (b :: r) := by
  unfold step
  rw [he, if_neg (by simp)]
  simp only [if_pos, if_neg hb]

/-- An option's letter, with a value behind it or not. -/
theorem step_letter (he : st.ended = false) (o : Opt) (t : Bytes) :
    step st (o.short ++ t) = begin st o (attachedValue t) := by
  obtain ⟨b, hb, hl⟩ := short_eq o
  have hs : o.short ++ t = dash :: b :: t := by
    rw [Opt.short, hl]
    rfl
  have hp : Text.firstPiece b t = (.char o.letter, t) := by
    rw [Text.firstPiece_eq_char_iff, hl]
    rfl
  rw [hs, step_short he hb]
  simp only [shortOption, hp, optLettered_iff.2 rfl]

/-- An option's name, with a value behind it or not. -/
theorem step_name (he : st.ended = false) (o : Opt) (v : Option Bytes) :
    step st (o.long ++ signed v) = begin st o v := by
  have hne : Text.utf8 o.name.toList ++ signed v ≠ [] := by
    cases o <;> exact List.append_ne_nil_of_left_ne_nil (by decide) _
  have hs : splitValue (Text.utf8 o.name.toList ++ signed v) = (Text.utf8 o.name.toList, v) :=
    splitValue_eq_iff.2 ⟨equals_notMem_name o, rfl⟩
  rw [Opt.long, List.cons_append, List.cons_append, step_long he hne]
  simp only [longOption, hs, optNamed?_iff.2 rfl]

/-- An argument that is taken as an option. -/
theorem begin_of_step (he : st.ended = false) (hs : ¬ Standalone a) (hd : a ≠ dashes) (h : step st a = .ok st') :
    ∃ o v, begin st o v = .ok st' ∧ (a = o.long ++ signed v ∨ ∃ t, attachedValue t = v ∧ a = o.short ++ t) := by
  rcases argument_cases a with ha | rfl | ⟨r, hr, rfl⟩ | ⟨b, r, hb, rfl⟩
  · exact absurd ha hs
  · exact absurd rfl hd
  · rw [step_long he hr] at h
    obtain ⟨o, v, rfl, hv⟩ := exists_of_longOption h
    exact ⟨o, v, hv, .inl rfl⟩
  · rw [step_short he hb] at h
    obtain ⟨o, t, ht, hv⟩ := exists_of_shortOption h
    exact ⟨o, _, hv, .inr ⟨t, rfl, by rw [ht]; rfl⟩⟩

theorem step_of_begin {o : Opt} {v : Option Bytes} (h : begin st o v = .ok st')
    (ha : a = o.long ++ signed v ∨ ∃ t, attachedValue t = v ∧ a = o.short ++ t) : Step st a st' := by
  obtain ⟨f, hf, hv⟩ := begin_eq_ok_iff.1 h
  cases v with
  | none =>
    subst hv
    refine .begins ?_ hf
    rcases ha with rfl | ⟨t, ht, rfl⟩
    · exact .inr (List.append_nil _)
    · rw [attachedValue_eq_none_iff.1 ht]
      exact .inl (List.append_nil _)
  | some v =>
    obtain ⟨f', hf', rfl⟩ := hv
    refine .attaches ?_ hf hf'
    rcases ha with rfl | ⟨t, ht, rfl⟩
    · exact .nameEquals
    · rcases attachedValue_eq_some_iff.1 ht with rfl | ⟨hne, heq, rfl⟩
      · exact .letterEquals
      · exact .letter hne heq

/-- The reader takes an argument in one of these ways or not at all. -/
theorem step_eq_ok_iff (he : st.ended = false) : step st a = .ok st' ↔ Step st a st' := by
  constructor
  · intro h
    by_cases hs : Standalone a
    · rw [step_standalone he hs, loneArgument_eq_ok_iff] at h
      obtain ⟨o, ho, rfl⟩ := h
      exact .holds ho hs
    · by_cases hd : a = dashes
      · rw [hd, step_dashes he] at h
        cases h
        exact .ends hd
      · obtain ⟨o, v, hb, ha⟩ := begin_of_step he hs hd h
        exact step_of_begin hb ha
  · intro h
    cases h with
    | ends ha => rw [ha, step_dashes he]
    | holds ho ha =>
      rw [step_standalone he ha, loneArgument_eq_ok_iff]
      exact ⟨_, ho, rfl⟩
    | @begins o f ha hf =>
      have hb : begin st o none = .ok ⟨f, .awaiting o, st.ended⟩ := begin_eq_ok_iff.2 ⟨f, hf, rfl⟩
      rcases ha with rfl | rfl
      · rw [← List.append_nil o.short, step_letter he]
        exact hb
      · rw [← List.append_nil o.long]
        exact (step_name he o none).trans hb
    | @attaches o v f f' ha hf hf' =>
      have hb : begin st o (some v) = .ok ⟨f', .none, st.ended⟩ := begin_eq_ok_iff.2 ⟨f, hf, f', hf', rfl⟩
      cases ha with
      | letter hne heq => rw [step_letter he, attachedValue_eq_some_iff.2 (.inr ⟨hne, heq, rfl⟩), hb]
      | letterEquals => rw [step_letter he, attachedValue_eq_some_iff.2 (.inl rfl), hb]
      | nameEquals => exact (step_name he o (some v)).trans hb

end IconMaker.CommandLine
