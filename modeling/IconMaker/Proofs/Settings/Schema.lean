import IconMaker.Proofs.Results
import IconMaker.Proofs.Size
import IconMaker.Proofs.Toml.Document
import IconMaker.Settings.Schema

/-
  IconMaker.Proofs.Settings.Schema — which documents are settings, and what is said of the others.

  The schema is stated over the entries of a document: `Sets` is an entry that fits and what it
  sets, `Offends` one that does not and what is said of it. Both are what the reader of
  settings does with one entry (`withEntry_eq_ok_iff`, `withEntry_eq_error_iff`), so that a
  document has the `Verdict` of its first entry that does not fit (`parse_of_verdict`). What is a
  document only beyond the limits of the reader is refused as none, and an entry that longer
  headers implied stands where its own header does (`the_reader_has_limits`).
-/

namespace IconMaker.Settings

open Toml

/-! ## The schema -/

inductive IsSize : Value → Size → Prop
  | edge {m : Mark} (n : Size) : IsSize (.scalar m (.integer n.edge)) n
  | text {m : Mark} {t : List Char} {n : Size} : Size.parse t = .ok n → IsSize (.scalar m (.string t)) n

/-- Why a value is no size. -/
inductive NoSize : Value → Offence → Prop
  | zero {m : Mark} : NoSize (.scalar m (.integer 0)) (.badSize .zero)
  | tooLarge {m : Mark} {n : Nat} : maxEdge < n → n < Size.maxNumber →
      NoSize (.scalar m (.integer n)) (.badSize (.tooLarge n))
  | text {m : Mark} {t : List Char} {e : SizeError} : Size.parse t = .error e →
      NoSize (.scalar m (.string t)) (.badSize e)
  | other {v : Value} : (∀ m (n : Nat), n < Size.maxNumber → v ≠ .scalar m (.integer n)) →
      (∀ m t, v ≠ .scalar m (.string t)) → NoSize v .noSize

/-- An array and its elements. Arrays of tables are arrays too. -/
inductive Listed : Value → List Value → Prop
  | array {m : Mark} {vs : List Value} : Listed (.array m vs) vs
  | tables {vs : List Value} : Listed (.tables vs) vs

inductive IsEmpty : Value → Prop
  | array {m : Mark} : IsEmpty (.array m [])
  | table {o : Origin} {m : Option Mark} : IsEmpty (.table o m [])
  | tables : IsEmpty (.tables [])

/-- Why a value is no empty table or array. -/
inductive NotEmpty : Value → Offence → Option Mark → Prop
  | scalar {m : Mark} {x : Scalar} : NotEmpty (.scalar m x) (.noTable (Kind.ofScalar x)) (some m)
  | array {m : Mark} {v : Value} {vs : List Value} : NotEmpty (.array m (v :: vs)) .tableNotEmpty (some m)
  | table {o : Origin} {m : Option Mark} {e : Key × Value} {es : Entries} :
      NotEmpty (.table o m (e :: es)) .tableNotEmpty m
  | tables {v : Value} {vs : List Value} : NotEmpty (.tables (v :: vs)) .tablesNotEmpty (Value.tables (v :: vs)).mark?

/-- The name of a filter, or a table whose only entry has that name and nothing in it. -/
inductive Chooses : Value → Filter → Prop
  | name {m : Mark} {t : List Char} {f : Filter} : Filter.ofName? t = some f → Chooses (.scalar m (.string t)) f
  | table {o : Origin} {m : Option Mark} {k : Key} {v : Value} {f : Filter} : Filter.ofName? k.name = some f →
      IsEmpty v → Chooses (.table o m [(k, v)]) f

inductive NoFilter : Value → Offence → Option Mark → Prop
  | name {m : Mark} {t : List Char} : Filter.ofName? t = none →
      NoFilter (.scalar m (.string t)) (.unknownFilter t) (some m)
  | noEntry {o : Origin} {m : Option Mark} : NoFilter (.table o m []) .noEntry m
  | key {o : Origin} {m : Option Mark} {k : Key} {v : Value} : Filter.ofName? k.name = none →
      NoFilter (.table o m [(k, v)]) (.unknownFilter k.name) (some k.mark)
  | value {o : Origin} {m mark : Option Mark} {k : Key} {v : Value} {f : Filter} {what : Offence} :
      Filter.ofName? k.name = some f → NotEmpty v what mark → NoFilter (.table o m [(k, v)]) what (mark.or m)
  | manyEntries {o : Origin} {m : Option Mark} {e e' : Key × Value} {es : Entries} :
      NoFilter (.table o m (e :: e' :: es)) .manyEntries m
  | other {v : Value} : (∀ m t, v ≠ .scalar m (.string t)) → (∀ o m es, v ≠ .table o m es) →
      NoFilter v .noFilter v.mark?

/-- An entry that fits, and what it sets. -/
inductive Sets : Key → Value → Settings → Settings → Prop
  | input {k : Key} {m : Mark} {t : List Char} {s : Settings} : k.name = "input".toList →
      Sets k (.scalar m (.string t)) s { s with input := some (Text.utf8 t) }
  | output {k : Key} {m : Mark} {t : List Char} {s : Settings} : k.name = "output".toList →
      Sets k (.scalar m (.string t)) s { s with output := some (Text.utf8 t) }
  | sizes {k : Key} {v : Value} {vs : List Value} {ns : List Size} {s : Settings} : k.name = "sizes".toList →
      Listed v vs → List.Forall₂ IsSize vs ns → Sets k v s { s with sizes := some ns }
  | filter {k : Key} {v : Value} {f : Filter} {s : Settings} : k.name = "filter".toList → Chooses v f →
      Sets k v s { s with filter := some f }

/-- An entry that does not fit, what is wrong with it, and the mark of the place, if the value
    has one. Of several elements that are no sizes the first one counts. -/
inductive Offends : Key → Value → Offence → Option Mark → Prop
  | unknown {k : Key} {v : Value} : k.name ∉ ["input".toList, "output".toList, "sizes".toList, "filter".toList] →
      Offends k v (.unknownKey k.name) (some k.mark)
  | path {k : Key} {v : Value} : k.name = "input".toList ∨ k.name = "output".toList →
      (∀ m t, v ≠ .scalar m (.string t)) →
      Offends k v (.noPath (found v)) v.mark?
  | noSequence {k : Key} {v : Value} : k.name = "sizes".toList → (∀ vs, ¬ Listed v vs) →
      Offends k v (.noSequence (found v)) v.mark?
  | size {k : Key} {v w : Value} {before after : List Value} {what : Offence} : k.name = "sizes".toList →
      Listed v (before ++ w :: after) → (∀ u ∈ before, ∃ n, IsSize u n) → NoSize w what → Offends k v what v.mark?
  | filter {k : Key} {v : Value} {what : Offence} {mark : Option Mark} : k.name = "filter".toList →
      NoFilter v what mark →
      Offends k v what mark

/-- What is said of the entries one after another: an entry that fits sets something, the first
    one that does not is reported. A value without a place has that of its key. -/
inductive Verdict : Settings → Entries → Except (Offence × Mark) Settings → Prop
  | done {s : Settings} : Verdict s [] (.ok s)
  | sets {s s' : Settings} {k : Key} {v : Value} {es : Entries} {r : Except (Offence × Mark) Settings} :
      Sets k v s s' → Verdict s' es r → Verdict s ((k, v) :: es) r
  | offends {s : Settings} {k : Key} {v : Value} {es : Entries} {what : Offence} {mark : Option Mark} :
      Offends k v what mark → Verdict s ((k, v) :: es) (.error (what, mark.getD k.mark))

variable {v : Value} {n : Size} {what : Offence} {mark : Option Mark} {k : Key} {s s' : Settings} {f : Filter}

/-! ## Sizes -/

/-- The kinds of value that are told apart where a size is wanted. -/
theorem size_cases (v : Value) :
    (∃ m, ∃ i : Nat, i < Size.maxNumber ∧ v = .scalar m (.integer i)) ∨ (∃ m t, v = .scalar m (.string t)) ∨
    ((∀ m (i : Nat), i < Size.maxNumber → v ≠ .scalar m (.integer i)) ∧ (∀ m t, v ≠ .scalar m (.string t))) := by
  by_cases h₁ : ∃ m, ∃ i : Nat, i < Size.maxNumber ∧ v = .scalar m (.integer i)
  · exact Or.inl h₁
  · by_cases h₂ : ∃ m t, v = .scalar m (.string t)
    · exact Or.inr (Or.inl h₂)
    · exact Or.inr (Or.inr ⟨fun m i hi hv => h₁ ⟨m, i, hi, hv⟩, fun m t hv => h₂ ⟨m, t, hv⟩⟩)

theorem sizeOf_edge (m : Mark) {i : Nat} (h : i < Size.maxNumber) :
    sizeOf (.scalar m (.integer i)) = (Size.ofEdge i).mapError .badSize := by
  have hi : (0 : Int) ≤ i ∧ (i : Int) < 2 ^ 32 := by
    unfold Size.maxNumber at h
    omega
  simp only [sizeOf]
  rw [if_pos hi, Int.toNat_natCast]

theorem sizeOf_text (m : Mark) (t : List Char) :
    sizeOf (.scalar m (.string t)) = (Size.parse t).mapError .badSize := rfl

theorem sizeOf_other (hi : ∀ m (i : Nat), i < Size.maxNumber → v ≠ .scalar m (.integer i))
    (ht : ∀ m t, v ≠ .scalar m (.string t)) : sizeOf v = .error .noSize := by
  unfold sizeOf
  split
  · rename_i m i
    rw [if_neg]
    rintro ⟨h₁, h₂⟩
    refine hi m i.toNat ?_ ?_
    · unfold Size.maxNumber
      omega
    · rw [Int.toNat_of_nonneg h₁]
  · exact absurd rfl (ht _ _)
  · rfl

theorem sizeOf_eq_ok_iff : sizeOf v = .ok n ↔ IsSize v n := by
  constructor
  · intro h
    rcases size_cases v with ⟨m, i, hi, rfl⟩ | ⟨m, t, rfl⟩ | ⟨hi, ht⟩
    · rw [sizeOf_edge m hi, mapError_eq_ok_iff, Size.ofEdge_eq_ok_iff] at h
      rw [h]
      exact .edge n
    · rw [sizeOf_text, mapError_eq_ok_iff] at h
      exact .text h
    · rw [sizeOf_other hi ht] at h
      cases h
  · intro h
    cases h with
    | edge =>
      have hlt : n.edge < Size.maxNumber := Nat.lt_of_le_of_lt n.le_max (by decide)
      rw [sizeOf_edge _ hlt, Size.ofEdge_edge]
      rfl
    | text ht => rw [sizeOf_text, mapError_eq_ok_iff, ht]

theorem sizeOf_eq_error_iff : sizeOf v = .error what ↔ NoSize v what := by
  constructor
  · intro h
    rcases size_cases v with ⟨m, i, hi, rfl⟩ | ⟨m, t, rfl⟩ | ⟨hi, ht⟩
    · rw [sizeOf_edge m hi, mapError_eq_error_iff] at h
      obtain ⟨e, he, rfl⟩ := h
      rcases Size.ofEdge_eq_error_iff.1 he with ⟨rfl, rfl⟩ | ⟨hlt, rfl⟩
      · exact .zero
      · exact .tooLarge hlt hi
    · rw [sizeOf_text, mapError_eq_error_iff] at h
      obtain ⟨e, he, rfl⟩ := h
      exact .text he
    · rw [sizeOf_other hi ht] at h
      cases h
      exact .other hi ht
  · intro h
    cases h with
    | zero => rfl
    | tooLarge hlt hi =>
      rw [sizeOf_edge _ hi, Size.ofEdge_eq_error_iff.2 (Or.inr ⟨hlt, rfl⟩)]
      rfl
    | text ht =>
      rw [sizeOf_text, ht]
      rfl
    | other hi ht => exact sizeOf_other hi ht

theorem listed_cases (v : Value) : (∃ vs, Listed v vs) ∨ ∀ vs, ¬ Listed v vs := by
  by_cases h : ∃ vs, Listed v vs
  · exact Or.inl h
  · exact Or.inr fun vs hv => h ⟨vs, hv⟩

theorem sizesOf_listed {vs : List Value} (h : Listed v vs) :
    sizesOf v = (vs.mapM sizeOf).mapError fun e => (e, v.mark?) := by
  cases h <;> rfl

theorem sizesOf_other (h : ∀ vs, ¬ Listed v vs) : sizesOf v = .error (.noSequence (found v), v.mark?) := by
  unfold sizesOf
  split
  · exact absurd .array (h _)
  · exact absurd .tables (h _)
  · rfl

theorem Listed.unique {vs vs' : List Value} (h : Listed v vs) (h' : Listed v vs') : vs = vs' := by
  cases h <;> cases h' <;> rfl

theorem sizesOf_eq_ok_iff {ns : List Size} :
    sizesOf v = .ok ns ↔ ∃ vs, Listed v vs ∧ List.Forall₂ IsSize vs ns := by
  have hmap : ∀ vs : List Value, vs.mapM sizeOf = .ok ns ↔ List.Forall₂ IsSize vs ns := by
    intro vs
    simp only [mapM_eq_ok_iff, sizeOf_eq_ok_iff]
  rcases listed_cases v with ⟨vs, hv⟩ | hv
  · rw [sizesOf_listed hv, mapError_eq_ok_iff, hmap]
    constructor
    · exact fun h => ⟨vs, hv, h⟩
    · rintro ⟨vs', hv', h⟩
      rwa [hv.unique hv']
  · rw [sizesOf_other hv]
    constructor
    · intro h
      cases h
    · rintro ⟨vs, h, -⟩
      exact absurd h (hv vs)

theorem sizesOf_eq_error_iff {vs : List Value} (h : Listed v vs) : sizesOf v = .error (what, mark) ↔
    ∃ before w after, vs = before ++ w :: after ∧ (∀ u ∈ before, ∃ n, IsSize u n) ∧ NoSize w what ∧ mark = v.mark? := by
  rw [sizesOf_listed h, mapError_eq_error_iff]
  simp only [mapM_eq_error_iff, sizeOf_eq_ok_iff, sizeOf_eq_error_iff, Prod.mk.injEq]
  constructor
  · rintro ⟨e, ⟨before, w, after, hvs, hbefore, hw⟩, rfl, rfl⟩
    exact ⟨before, w, after, hvs, hbefore, hw, rfl⟩
  · rintro ⟨before, w, after, hvs, hbefore, hw, rfl⟩
    exact ⟨what, ⟨before, w, after, hvs, hbefore, hw⟩, rfl, rfl⟩

/-! ## Filters -/

theorem checkEmpty_eq_ok_iff : checkEmpty v = .ok () ↔ IsEmpty v := by
  constructor
  · intro h
    unfold checkEmpty at h
    split at h
    · cases h
    · exact .array
    · exact .table
    · exact .tables
    · cases h
    · cases h
  · intro h
    cases h <;> rfl

theorem checkEmpty_eq_error_iff : checkEmpty v = .error (what, mark) ↔ NotEmpty v what mark := by
  constructor
  · intro h
    cases v with
    | scalar m x =>
      cases h
      exact .scalar
    | array m vs =>
      cases vs with
      | nil => cases h
      | cons v vs =>
        cases h
        exact .array
    | table o m es =>
      cases es with
      | nil => cases h
      | cons e es =>
        cases h
        exact .table
    | tables vs =>
      cases vs with
      | nil => cases h
      | cons v vs =>
        cases h
        exact .tables
  · intro h
    cases h <;> rfl

theorem filterNamed_eq_ok_iff {t : List Char} : filterNamed t mark = .ok f ↔ Filter.ofName? t = some f := by
  unfold filterNamed
  cases Filter.ofName? t <;> simp

theorem filterNamed_eq_error_iff {t : List Char} {mark' : Option Mark} :
    filterNamed t mark' = .error (what, mark) ↔ Filter.ofName? t = none ∧ what = .unknownFilter t ∧ mark = mark' := by
  unfold filterNamed
  cases Filter.ofName? t <;> simp [eq_comm]

/-- A table with one entry. -/
theorem filterOf_single (o : Origin) (m : Option Mark) (k : Key) (v : Value) :
    filterOf (.table o m [(k, v)]) = (filterNamed k.name (some k.mark)).bind fun f =>
      ((checkEmpty v).mapError fun r => (r.1, r.2.or m)).map fun _ => f := by
  rfl

/-- The kinds of value that are told apart where a filter is wanted. -/
theorem filter_cases (v : Value) :
    (∃ m t, v = .scalar m (.string t)) ∨ (∃ o m es, v = .table o m es) ∨
    ((∀ m t, v ≠ .scalar m (.string t)) ∧ (∀ o m es, v ≠ .table o m es) ∧ filterOf v = .error (.noFilter, v.mark?)) := by
  cases v with
  | scalar m x => cases x <;> simp [filterOf]
  | array | tables => simp [filterOf]
  | table o m es => exact Or.inr (Or.inl ⟨o, m, es, rfl⟩)

theorem filterOf_eq_ok_iff : filterOf v = .ok f ↔ Chooses v f := by
  constructor
  · intro h
    rcases filter_cases v with ⟨m, t, rfl⟩ | ⟨o, m, es, rfl⟩ | ⟨-, -, hother⟩
    · exact .name (filterNamed_eq_ok_iff.1 h)
    · match es, h with
      | [(k, v)], h =>
        rw [filterOf_single] at h
        obtain ⟨f', hf, h⟩ := bind_eq_ok_iff.1 h
        obtain ⟨⟨⟩, hu, rfl⟩ := map_eq_ok_iff.1 h
        exact .table (filterNamed_eq_ok_iff.1 hf) (checkEmpty_eq_ok_iff.1 (mapError_eq_ok_iff.1 hu))
      | [], h => cases h
      | _ :: _ :: _, h => cases h
    · rw [hother] at h
      cases h
  · intro h
    cases h with
    | name ht => exact filterNamed_eq_ok_iff.2 ht
    | table hk hv =>
      rw [filterOf_single, filterNamed_eq_ok_iff.2 hk, checkEmpty_eq_ok_iff.2 hv]
      rfl

theorem filterOf_eq_error_iff : filterOf v = .error (what, mark) ↔ NoFilter v what mark := by
  constructor
  · intro h
    rcases filter_cases v with ⟨m, t, rfl⟩ | ⟨o, m, es, rfl⟩ | ⟨ht, ho, hother⟩
    · obtain ⟨hname, rfl, rfl⟩ := filterNamed_eq_error_iff.1 h
      exact .name hname
    · match es, h with
      | [], h =>
        cases h
        exact .noEntry
      | [(k, v)], h =>
        rw [filterOf_single, bind_eq_error_iff] at h
        rcases h with h | ⟨f, hf, h⟩
        · obtain ⟨hname, rfl, rfl⟩ := filterNamed_eq_error_iff.1 h
          exact .key hname
        · obtain ⟨⟨what', mark'⟩, hv, he⟩ := mapError_eq_error_iff.1 (map_eq_error_iff.1 h)
          cases he
          exact .value (filterNamed_eq_ok_iff.1 hf) (checkEmpty_eq_error_iff.1 hv)
      | _ :: _ :: _, h =>
        cases h
        exact .manyEntries
    · rw [hother] at h
      cases h
      exact .other ht ho
  · intro h
    cases h with
    | name ht => exact filterNamed_eq_error_iff.2 ⟨ht, rfl, rfl⟩
    | noEntry => rfl
    | key hk =>
      rw [filterOf_single, filterNamed_eq_error_iff.2 ⟨hk, rfl, rfl⟩]
      rfl
    | value hk hv =>
      rw [filterOf_single, filterNamed_eq_ok_iff.2 hk, checkEmpty_eq_error_iff.2 hv]
      rfl
    | manyEntries => rfl
    | other ht ho =>
      rcases filter_cases v with ⟨m, t, rfl⟩ | ⟨o, m, es, rfl⟩ | ⟨-, -, hother⟩
      · exact absurd rfl (ht m t)
      · exact absurd rfl (ho o m es)
      · exact hother

/-! ## Entries -/

theorem pathOf_other (h : ∀ m t, v ≠ .scalar m (.string t)) : pathOf v = .error (.noPath (found v), v.mark?) := by
  unfold pathOf
  split
  · exact absurd rfl (h _ _)
  · rfl

theorem pathOf_cases (v : Value) :
    (∃ m t, v = .scalar m (.string t) ∧ pathOf v = .ok (Text.utf8 t)) ∨
    ((∀ m t, v ≠ .scalar m (.string t)) ∧ pathOf v = .error (.noPath (found v), v.mark?)) := by
  by_cases h : ∃ m t, v = .scalar m (.string t)
  · obtain ⟨m, t, rfl⟩ := h
    exact Or.inl ⟨m, t, rfl, rfl⟩
  · have hne : ∀ m t, v ≠ .scalar m (.string t) := fun m t hv => h ⟨m, t, hv⟩
    exact Or.inr ⟨hne, pathOf_other hne⟩

/-- The four keys, and all others. -/
theorem name_cases (n : List Char) :
    n = "input".toList ∨ n = "output".toList ∨ n = "sizes".toList ∨ n = "filter".toList ∨
      n ∉ ["input".toList, "output".toList, "sizes".toList, "filter".toList] := by
  by_cases h₁ : n = "input".toList
  · exact Or.inl h₁
  by_cases h₂ : n = "output".toList
  · exact Or.inr (Or.inl h₂)
  by_cases h₃ : n = "sizes".toList
  · exact Or.inr (Or.inr (Or.inl h₃))
  by_cases h₄ : n = "filter".toList
  · exact Or.inr (Or.inr (Or.inr (Or.inl h₄)))
  refine Or.inr (Or.inr (Or.inr (Or.inr ?_)))
  simp only [List.mem_cons, List.not_mem_nil, or_false, not_or]
  exact ⟨h₁, h₂, h₃, h₄⟩

theorem withEntry_input (s : Settings) (v : Value) (h : k.name = "input".toList) :
    withEntry s k v = (pathOf v).map fun p => { s with input := some p } := by
  rw [withEntry, if_pos h]

theorem withEntry_output (s : Settings) (v : Value) (h : k.name = "output".toList) :
    withEntry s k v = (pathOf v).map fun p => { s with output := some p } := by
  rw [withEntry, h]
  rfl

theorem withEntry_sizes (s : Settings) (v : Value) (h : k.name = "sizes".toList) :
    withEntry s k v = (sizesOf v).map fun l => { s with sizes := some l } := by
  rw [withEntry, h]
  rfl

theorem withEntry_filter (s : Settings) (v : Value) (h : k.name = "filter".toList) :
    withEntry s k v = (filterOf v).map fun f => { s with filter := some f } := by
  rw [withEntry, h]
  rfl

theorem withEntry_unknown (s : Settings) (v : Value)
    (h : k.name ∉ ["input".toList, "output".toList, "sizes".toList, "filter".toList]) :
    withEntry s k v = .error (.unknownKey k.name, some k.mark) := by
  simp only [List.mem_cons, List.not_mem_nil, or_false, not_or] at h
  rw [withEntry, if_neg h.1, if_neg h.2.1, if_neg h.2.2.1, if_neg h.2.2.2]

theorem withEntry_eq_ok_iff : withEntry s k v = .ok s' ↔ Sets k v s s' := by
  constructor
  · intro h
    rcases name_cases k.name with hk | hk | hk | hk | hk
    · rw [withEntry_input s v hk] at h
      rcases pathOf_cases v with ⟨m, t, rfl, hp⟩ | ⟨-, hp⟩
      · rw [hp] at h
        cases h
        exact .input hk
      · rw [hp] at h
        cases h
    · rw [withEntry_output s v hk] at h
      rcases pathOf_cases v with ⟨m, t, rfl, hp⟩ | ⟨-, hp⟩
      · rw [hp] at h
        cases h
        exact .output hk
      · rw [hp] at h
        cases h
    · rw [withEntry_sizes s v hk] at h
      obtain ⟨ns, hns, rfl⟩ := map_eq_ok_iff.1 h
      obtain ⟨vs, hvs, hall⟩ := sizesOf_eq_ok_iff.1 hns
      exact .sizes hk hvs hall
    · rw [withEntry_filter s v hk] at h
      obtain ⟨f, hf, rfl⟩ := map_eq_ok_iff.1 h
      exact .filter hk (filterOf_eq_ok_iff.1 hf)
    · rw [withEntry_unknown s v hk] at h
      cases h
  · intro h
    cases h with
    | input hk =>
      rw [withEntry_input _ _ hk]
      rfl
    | output hk =>
      rw [withEntry_output _ _ hk]
      rfl
    | sizes hk hvs hall =>
      rw [withEntry_sizes _ _ hk, sizesOf_eq_ok_iff.2 ⟨_, hvs, hall⟩]
      rfl
    | filter hk hf =>
      rw [withEntry_filter _ _ hk, filterOf_eq_ok_iff.2 hf]
      rfl

theorem withEntry_eq_error_iff : withEntry s k v = .error (what, mark) ↔ Offends k v what mark := by
  constructor
  · intro h
    rcases name_cases k.name with hk | hk | hk | hk | hk
    · rw [withEntry_input s v hk, map_eq_error_iff] at h
      rcases pathOf_cases v with ⟨m, t, rfl, hp⟩ | ⟨hv, hp⟩
      · rw [hp] at h
        cases h
      · rw [hp] at h
        cases h
        exact .path (Or.inl hk) hv
    · rw [withEntry_output s v hk, map_eq_error_iff] at h
      rcases pathOf_cases v with ⟨m, t, rfl, hp⟩ | ⟨hv, hp⟩
      · rw [hp] at h
        cases h
      · rw [hp] at h
        cases h
        exact .path (Or.inr hk) hv
    · rw [withEntry_sizes s v hk, map_eq_error_iff] at h
      rcases listed_cases v with ⟨vs, hv⟩ | hv
      · obtain ⟨before, w, after, rfl, hbefore, hw, rfl⟩ := (sizesOf_eq_error_iff hv).1 h
        exact .size hk hv hbefore hw
      · rw [sizesOf_other hv] at h
        cases h
        exact .noSequence hk hv
    · rw [withEntry_filter s v hk, map_eq_error_iff] at h
      exact .filter hk (filterOf_eq_error_iff.1 h)
    · rw [withEntry_unknown s v hk] at h
      cases h
      exact .unknown hk
  · intro h
    cases h with
    | unknown hk => exact withEntry_unknown _ _ hk
    | path hk hv =>
      rcases hk with hk | hk
      · rw [withEntry_input _ _ hk, pathOf_other hv]
        rfl
      · rw [withEntry_output _ _ hk, pathOf_other hv]
        rfl
    | noSequence hk hv =>
      rw [withEntry_sizes _ _ hk, sizesOf_other hv]
      rfl
    | size hk hv hbefore hw =>
      rw [withEntry_sizes _ _ hk, (sizesOf_eq_error_iff hv).2 ⟨_, _, _, rfl, hbefore, hw, rfl⟩]
      rfl
    | filter hk hf =>
      rw [withEntry_filter _ _ hk, filterOf_eq_error_iff.2 hf]
      rfl

/-- The reader of settings says what the schema says. -/
theorem ofEntries_iff {es : Entries} {r : Except (Offence × Mark) Settings} :
    es.foldlM (fun s e => (withEntry s e.1 e.2).mapError fun r => (r.1, r.2.getD e.1.mark)) s = r ↔ Verdict s es r := by
  induction es generalizing s with
  | nil =>
    rw [List.foldlM_nil]
    constructor
    · rintro rfl
      exact .done
    · intro h
      cases h
      rfl
  | cons e es ih =>
    obtain ⟨k, v⟩ := e
    rw [List.foldlM_cons]
    cases hentry : withEntry s k v with
    | ok s' =>
      refine (ih (s := s')).trans ?_
      constructor
      · exact .sets (withEntry_eq_ok_iff.1 hentry)
      · intro h
        cases h with
        | sets hs hes =>
          rw [withEntry_eq_ok_iff.2 hs] at hentry
          cases hentry
          exact hes
        | offends ho =>
          rw [withEntry_eq_error_iff.2 ho] at hentry
          cases hentry
    | error r' =>
      obtain ⟨what, mark⟩ := r'
      constructor
      · rintro rfl
        exact .offends (withEntry_eq_error_iff.1 hentry)
      · intro h
        cases h with
        | sets hs _ =>
          rw [withEntry_eq_ok_iff.2 hs] at hentry
          cases hentry
        | offends ho =>
          rw [withEntry_eq_error_iff.2 ho] at hentry
          cases hentry
          rfl

/-! ## Documents -/

/-- The schema says one thing only. -/
theorem Verdict.unique {es : Entries} {r r' : Except (Offence × Mark) Settings}
    (h : Verdict s es r) (h' : Verdict s es r') :
    r = r' := by
  rw [← ofEntries_iff.2 h, ofEntries_iff.2 h']

/-- The entry has one of the four keys and a value that is right for it. -/
def Fits (k : Key) (v : Value) : Prop := ∃ s s', Sets k v s s'

theorem Sets.again (h : Sets k v s s') (t : Settings) : ∃ t', Sets k v t t' := by
  cases h with
  | input hk => exact ⟨_, .input hk⟩
  | output hk => exact ⟨_, .output hk⟩
  | sizes hk hvs hall => exact ⟨_, .sizes hk hvs hall⟩
  | filter hk hf => exact ⟨_, .filter hk hf⟩

theorem exists_verdict_ok_iff {es : Entries} : (∃ s', Verdict s es (.ok s')) ↔ ∀ e ∈ es, Fits e.1 e.2 := by
  induction es generalizing s with
  | nil => exact ⟨fun _ e he => absurd he (List.not_mem_nil), fun _ => ⟨s, .done⟩⟩
  | cons e es ih =>
    rw [List.forall_mem_cons]
    constructor
    · rintro ⟨s', h⟩
      cases h with
      | sets hs hes => exact ⟨⟨_, _, hs⟩, ih.1 ⟨_, hes⟩⟩
    · rintro ⟨⟨t, t', hs⟩, hes⟩
      obtain ⟨s₁, hs₁⟩ := hs.again s
      obtain ⟨s', hs'⟩ := ih.2 hes
      exact ⟨s', .sets hs₁ hs'⟩

/-- What is said of a text whose entries have this verdict: offsets count from its start. -/
def told (text : List Char) (r : Except (Offence × Mark) Settings) : Except Fault Settings :=
  r.mapError fun x => .offence x.1 (Text.byteCount text - x.2)

theorem told_eq_ok_iff {text : List Char} {r : Except (Offence × Mark) Settings} :
    told text r = .ok s ↔ r = .ok s :=
  mapError_eq_ok_iff

theorem parse_of_entries {text : List Char} {es : Entries} (h : Toml.parse text = some es) :
    parse text = told text (ofEntries es) := by
  rw [parse, h]
  rfl

/-- What is said of a document, read strictly or leniently. -/
theorem parse_of_verdict {lenient : Bool} {text : List Char} {es : Entries}
    (hdoc : Document (Rules.limited lenient) text es) :
    ((∃ s, parse text = .ok s) ↔ ∀ e ∈ es, Fits e.1 e.2) ∧ ∃ r, Verdict empty es r ∧ parse text = told text r := by
  have hparse := parse_of_entries (parse_of_document hdoc)
  have hverdict : Verdict empty es (ofEntries es) := ofEntries_iff.1 rfl
  refine ⟨?_, ofEntries es, hverdict, hparse⟩
  rw [hparse, ← exists_verdict_ok_iff (s := empty)]
  simp only [told_eq_ok_iff, ← ofEntries_iff]
  rfl

/-- A text that is no document is refused as such, whatever is wrong with it. For a document the
    settings are read if every top-level entry fits, and otherwise the first that does not is
    reported. -/
theorem parse_reports_first_offence (text : List Char) :
    (∀ es, Document (Rules.limited false) text es →
      ((∃ s, parse text = .ok s) ↔ ∀ e ∈ es, Fits e.1 e.2) ∧ ∃ r, Verdict empty es r ∧ parse text = told text r) ∧
    ((∀ es, ¬ Document (Rules.limited true) text es) → parse text = .error .notToml) := by
  refine ⟨fun es hdoc => parse_of_verdict hdoc, fun hnone => ?_⟩
  have hparse : Toml.parse text = none := by
    rw [Option.eq_none_iff_forall_ne_some]
    exact fun es h => hnone es (parse_eq_some_iff.1 h)
  rw [parse, hparse]

/-- Two texts of one line: a document whose only entry does not fit, and no document. -/
theorem an_empty_filter_name_is_reported :
    Document (Rules.limited false) "filter=''".toList [(⟨"filter".toList, 9⟩, .scalar 2 (.string []))] ∧
    parse "filter=''".toList = .error (.offence (.unknownFilter []) 7) ∧
    (∀ es, ¬ Document (Rules.limited true) "=".toList es) ∧ parse "=".toList = .error .notToml := by
  have hvalue : ValueAt (Rules.limited false) maxDepth "''".toList (.scalar 2 (.string [])) [] :=
    .scalar (.string (.literal (.close [])))
  have hdoc := document_of_value "filter".toList (by decide) (List.all_eq_true.1 rfl) (by decide) hvalue
  obtain ⟨-, r, hr, hparse⟩ := (parse_reports_first_offence "filter=''".toList).1 _ hdoc
  obtain rfl : r = .error (.unknownFilter [], 2) := hr.unique (.offends (.filter rfl (.name (by decide))))
  have hnone : ∀ es, ¬ Document (Rules.limited true) "=".toList es := by
    intro es h
    have hsign : Toml.parse "=".toList = none := by
      rw [Toml.parse, show dropByteOrderMark "=".toList = ['='] from rfl, lines?, if_neg (by decide)]
      rfl
    rw [parse_of_document h] at hsign
    cases hsign
  exact ⟨hdoc, hparse, hnone, (parse_reports_first_offence "=".toList).2 hnone⟩

/-! ## The limits of the reader -/

/-- So many arrays in each other, and what follows them. -/
def brackets (n : Nat) (r : List Char) : List Char := List.replicate n '[' ++ (List.replicate n ']' ++ r)

theorem brackets_succ (n : Nat) (r : List Char) : brackets (n + 1) r = '[' :: brackets n (']' :: r) := by
  rw [brackets, brackets, List.replicate_succ, List.replicate_succ' (a := ']')]
  simp

theorem valueAt_brackets (ρ : Rules) (n : Nat) (r : List Char) :
    ∃ m vs, ValueAt ρ (n + 1) (brackets (n + 1) r) (.array m vs) r := by
  induction n generalizing r with
  | zero => exact ⟨_, [], .array (.close (.done _))⟩
  | succ n ih =>
    obtain ⟨m, vs, hv⟩ := ih (']' :: r)
    rw [brackets_succ (n + 1)]
    exact ⟨_, [.array m vs], .array (.last (.done _) hv (.done _))⟩

/-- Nothing nests deeper than the reader goes. -/
theorem value?_brackets (depth : Nat) (r : List Char) : value? depth (brackets (depth + 1) r) = none := by
  induction depth generalizing r with
  | zero => rfl
  | succ depth ih =>
    have hsolid : skipGap false (brackets (depth + 1) (']' :: r)) = brackets (depth + 1) (']' :: r) := skipGap_eq_self rfl
    have hitem : itemOf (value? depth) (brackets (depth + 1) (']' :: r)) = none := by
      unfold itemOf
      rw [hsolid, ih]
      rfl
    have hitems : arrayItems? (value? depth) (brackets (depth + 1) (']' :: r)) = none := by
      rw [arrayItems?_eq, separated_of_none hitem]
      simp only [dropComma]
      rw [hsolid]
      rfl
    rw [brackets_succ]
    unfold value?
    simp only [hitems, Option.map_none]

theorem exists_large : ∃ d, ValueAt ⟨0, 1, true, false⟩ 0 "1e400".toList (.scalar 5 (.float d)) [] := by
  have hone : Whole ['1'] ['1'] := .digits (by decide) (.one rfl)
  have hdigits : Digits isDigit ['4', '0', '0'] ['4', '0', '0'] := .more rfl (.more rfl (.one rfl))
  have hexponent : Exponent ['e', '4', '0', '0'] _ := .mk (σ := []) rfl .none hdigits
  have hnumber : ∃ d, Number true "1e400".toList (.float d) :=
    ⟨_, .float (σ := []) .none hone (.exponent hexponent) fun _ => rfl⟩
  obtain ⟨d, hd⟩ := hnumber
  have hscalar : ScalarAt ⟨0, 1, true, false⟩ ("1e400".toList ++ []) (.float d) [] := .plain (.number hd)
  exact ⟨d, _, hscalar, rfl⟩

/-- A dotted key with so many points, and what follows it. -/
def dotted : Nat → List Char → List Char
  | 0, r => 'a' :: r
  | n + 1, r => 'a' :: '.' :: dotted n r

theorem keyPath_dotted (n : Nat) (r : List Char) :
    ∃ k ks, KeyPath (dotted n r) (k :: ks) r ∧ ks.length = n ∧ k.name = ['a'] := by
  induction n with
  | zero => exact ⟨_, [], .last (.bare (t := ['a']) (by decide) (List.all_eq_true.1 rfl)) (.refl _), rfl, rfl⟩
  | succ n ih =>
    obtain ⟨k, ks, hpath, hlen, -⟩ := ih
    have hkey : SimpleKey ('a' :: '.' :: dotted n r) ⟨['a'], markOf ('a' :: '.' :: dotted n r)⟩ ('.' :: dotted n r) :=
      .bare (t := ['a']) (by decide) (List.all_eq_true.1 rfl)
    exact ⟨_, k :: ks, .more hkey (.refl _) (.refl _) hpath, by rw [List.length_cons, hlen], rfl⟩

/-- An array that nests too deep for the reader. -/
theorem a_deep_array_is_refused :
    ∃ es, Document ⟨80, 1, false, false⟩ ("sizes".toList ++ '=' :: brackets 80 []) es ∧
      (∃ m, Verdict empty es (.error (.noSize, m))) ∧
      parse ("sizes".toList ++ '=' :: brackets 80 []) = .error .notToml := by
  obtain ⟨m, vs, hv⟩ := valueAt_brackets ⟨80, 1, false, false⟩ 78 [']']
  have hvalue : ValueAt ⟨80, 1, false, false⟩ 80 (brackets 80 []) (.array (markOf (brackets 80 [])) [.array m vs]) [] :=
    .array (.last (.done _) hv (.done _))
  have hlisted : Listed (.array (markOf (brackets 80 [])) [.array m vs]) ([] ++ .array m vs :: []) := .array
  have hsize : NoSize (.array m vs) .noSize := .other (by simp) (by simp)
  refine ⟨_, document_of_value "sizes".toList (by decide) (List.all_eq_true.1 rfl) (by decide) hvalue,
    ⟨_, .offends (.size rfl hlisted (by simp) hsize)⟩, ?_⟩
  have hsolid : skipWhite (brackets 80 []) = brackets 80 [] := skipWhite_eq_self rfl
  have hnone := parse_eq_none "sizes".toList (brackets 80 []) (by decide) (List.all_eq_true.1 rfl)
    ((congrArg (value? maxDepth) hsolid).trans (value?_brackets 79 []))
  rw [parse, hnone]

/-- A number that is too large for the reader. -/
theorem a_large_number_is_refused :
    ∃ es, Document ⟨0, 1, true, false⟩ "filter=1e400".toList es ∧ (∃ m, Verdict empty es (.error (.noFilter, m))) ∧
      parse "filter=1e400".toList = .error .notToml := by
  obtain ⟨d, hvalue⟩ := exists_large
  refine ⟨_, document_of_value "filter".toList (by decide) (List.all_eq_true.1 rfl) (by decide) hvalue,
    ⟨_, .offends (.filter rfl (.other (by simp) (by simp)))⟩, ?_⟩
  have hnone := parse_eq_none "filter".toList "1e400".toList (by decide) (List.all_eq_true.1 rfl) (by decide +kernel)
  rw [parse, show "filter=1e400".toList = "filter".toList ++ '=' :: "1e400".toList from rfl, hnone]

/-- A key of more parts than the reader takes. -/
theorem a_long_key_is_refused :
    ∃ es, Document ⟨0, 80, false, false⟩ (dotted 79 "=true".toList) es ∧
      (∃ m, Verdict empty es (.error (.unknownKey ['a'], m))) ∧ parse (dotted 79 "=true".toList) = .error .notToml := by
  obtain ⟨k₀, ks, hpath, hlen, hname⟩ := keyPath_dotted 79 "=true".toList
  have hne : ks ≠ [] := by
    rintro rfl
    cases hlen
  have hks := List.dropLast_append_getLast hne
  have hkey : KeyAt 80 (dotted 79 "=true".toList) (k₀ :: ks.dropLast) (ks.getLast hne) ('=' :: "true".toList) := by
    refine ⟨?_, ?_⟩
    · rw [List.cons_append, hks]
      exact hpath
    · rw [List.length_cons, List.length_dropLast, hlen]
      decide
  have hvalue : ValueAt ⟨0, 80, false, false⟩ 0 ("true".toList ++ []) (.scalar 4 (.boolean true)) [] :=
    ⟨_, .plain .yes, rfl⟩
  obtain ⟨sub, hdoc⟩ := document_of_path (ρ := ⟨0, 80, false, false⟩) hkey hvalue
  have hunknown : k₀.name ∉ ["input".toList, "output".toList, "sizes".toList, "filter".toList] := by
    rw [hname]
    decide
  refine ⟨_, hdoc, ⟨_, hname ▸ Verdict.offends (.unknown hunknown)⟩, ?_⟩
  rw [parse, parse_eq_none_of_parts hpath (by rw [List.length_cons, hlen]; decide) rfl]

/-- A table that only a longer header names, and later its own. -/
def twiceNamed : List Char := "[filter.x]\n[foo]\n[filter]\n".toList

/-- The first header of the text names an entry that does not fit, which is not the one that is
    reported: the entry stands where its own header does, behind another one. -/
theorem an_implied_table_moves :
    ∃ k k' m xs es, Lines (Rules.limited false) twiceNamed (.table [k] k' m :: xs) ∧
      Builds false [] [] (.table [k] k' m :: xs) es ∧
      (∃ e ∈ es, e.1.name = k.name ∧ ∃ m', Offends e.1 e.2 (.unknownFilter ['x']) (some m') ∧
        Text.byteCount twiceNamed - m' = 8) ∧
      parse twiceNamed = .error (.offence (.unknownKey "foo".toList) 12) := by
  have hfirst : Stated (Rules.limited false) twiceNamed (.table [⟨"filter".toList, 25⟩] ⟨['x'], 18⟩ 26)
      (twiceNamed.drop 10) :=
    .table (.refl _) ⟨.more (.bare (t := "filter".toList) (by decide) (List.all_eq_true.1 rfl)) (.refl _) (.refl _)
      (.last (.bare (t := ['x']) (by decide) (List.all_eq_true.1 rfl)) (.refl _)), by decide⟩
  have hsecond : Stated (Rules.limited false) (twiceNamed.drop 11) (.table [] ⟨"foo".toList, 14⟩ 15)
      (twiceNamed.drop 16) :=
    .table (.refl _) ⟨.last (.bare (t := "foo".toList) (by decide) (List.all_eq_true.1 rfl)) (.refl _), by decide⟩
  have hthird : Stated (Rules.limited false) (twiceNamed.drop 17) (.table [] ⟨"filter".toList, 8⟩ 9)
      (twiceNamed.drop 25) :=
    .table (.refl _) ⟨.last (.bare (t := "filter".toList) (by decide) (List.all_eq_true.1 rfl)) (.refl _), by decide⟩
  have hend (r : List Char) : LineEnd ('\n' :: r) r := ⟨_, _, .refl _, Or.inl rfl, .line (.lineFeed _)⟩
  have hlines : Lines (Rules.limited false) twiceNamed _ :=
    .statement (.refl _) hfirst (hend _) (.statement (.refl _) hsecond (hend _)
      (.statement (.refl _) hthird (hend _) .done))
  have hbuilds : Builds false [] [] [.table [⟨"filter".toList, 25⟩] ⟨['x'], 18⟩ 26, .table [] ⟨"foo".toList, 14⟩ 15,
      .table [] ⟨"filter".toList, 8⟩ 9] _ :=
    .cons (.table (.fresh rfl (.here (.new rfl)))) (.cons (.table (.here (.new rfl)))
      (.cons (.table (.here (.implied rfl))) .nil))
  have hdoc : Document (Rules.limited false) twiceNamed _ := ⟨_, _, Or.inl rfl, hlines, hbuilds⟩
  obtain ⟨-, r, hr, hparse⟩ := parse_of_verdict hdoc
  obtain rfl : r = .error (.unknownKey "foo".toList, 14) := hr.unique (.offends (.unknown (by decide)))
  refine ⟨_, _, _, _, _, hlines, hbuilds, ⟨_, List.mem_concat_self, rfl, 18, ?_, rfl⟩, hparse⟩
  exact .filter rfl (.key rfl)
/-- The limits of the reader are not those of the notation: here are a document that nests too
    deep for it, one with a number that is too large, and one with a key of too many parts. By
    the schema, entries that do not fit would be reported; all three are refused as no
    documents. Nor is the order of the entries always that in which the text first names them. -/
theorem the_reader_has_limits :
    (∃ es, Document ⟨80, 1, false, false⟩ ("sizes".toList ++ '=' :: brackets 80 []) es ∧
      (∃ m, Verdict empty es (.error (.noSize, m))) ∧
      parse ("sizes".toList ++ '=' :: brackets 80 []) = .error .notToml) ∧
    (∃ es, Document ⟨0, 1, true, false⟩ "filter=1e400".toList es ∧ (∃ m, Verdict empty es (.error (.noFilter, m))) ∧
      parse "filter=1e400".toList = .error .notToml) ∧
    (∃ es, Document ⟨0, 80, false, false⟩ (dotted 79 "=true".toList) es ∧
      (∃ m, Verdict empty es (.error (.unknownKey ['a'], m))) ∧ parse (dotted 79 "=true".toList) = .error .notToml) ∧
    (∃ k k' m xs es, Lines (Rules.limited false) twiceNamed (.table [k] k' m :: xs) ∧
      Builds false [] [] (.table [k] k' m :: xs) es ∧
      (∃ e ∈ es, e.1.name = k.name ∧ ∃ m', Offends e.1 e.2 (.unknownFilter ['x']) (some m') ∧
        Text.byteCount twiceNamed - m' = 8) ∧
      parse twiceNamed = .error (.offence (.unknownKey "foo".toList) 12)) :=
  ⟨a_deep_array_is_refused, a_large_number_is_refused, a_long_key_is_refused, an_implied_table_moves⟩

end IconMaker.Settings
