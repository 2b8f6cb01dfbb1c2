import IconMaker.Toml.Grammar

/-
  IconMaker.Proofs.Toml.Insertion — how a table in a tree of tables is changed.

  `Into` is a change of the table at the end of a path, by rules: a table that is not there yet
  comes to be, one that is there is passed through, and of an array of tables the last element
  is. What a dotted key may pass through is only what dotted keys have made; `lenient` also lets
  it pass where longer headers have led before it, and through arrays of tables. `atPath`
  follows the lenient rules (`into_iff`), and changing a table twice is one change
  (`atPath_bind`).
-/

namespace IconMaker.Toml

/-! ## The rules -/

/-- May a path of the kind lead on through a table that came to be like this? -/
def Passable (lenient : Bool) (via o : Origin) : Prop :=
  o ≠ .inline ∧ (via = .dotted → o = .dotted ∨ lenient = true ∧ o = .implied)

/-- A change of the table at the end of a path. -/
inductive Into (lenient : Bool) (via : Origin) (act : Origin → Entries → Entries → Prop) :
    List Key → Origin → Entries → Entries → Prop
  | here {o : Origin} {es es' : Entries} : act o es es' → Into lenient via act [] o es es'
  | fresh {k : Key} {ks : List Key} {o : Origin} {es sub : Entries} : es.get? k.name = none →
      Into lenient via act ks via [] sub → Into lenient via act (k :: ks) o es (es ++ [(k, .table via none sub)])
  | table {k : Key} {ks : List Key} {o o' : Origin} {m : Option Mark} {es sub sub' : Entries} :
      es.get? k.name = some (.table o' m sub) → Passable lenient via o' → Into lenient via act ks o' sub sub' →
      Into lenient via act (k :: ks) o es (es.set k.name (.table o' m sub'))
  | element {k : Key} {ks : List Key} {o o' : Origin} {m : Option Mark} {es sub sub' : Entries} {els : List Value} :
      es.get? k.name = some (.tables (els ++ [.table o' m sub])) → (via = .dotted → lenient = true) →
      Into lenient via act ks o' sub sub' →
      Into lenient via act (k :: ks) o es (es.set k.name (.tables (els ++ [.table o' m sub'])))

/-- One more entry. Behind a dotted key it goes into a table that dotted keys have made, and
    otherwise into the table where the key stands. -/
def Adds (path : List Key) (k : Key) (v : Value) (o : Origin) (es es' : Entries) : Prop :=
  (o = .dotted ↔ path ≠ []) ∧ es.get? k.name = none ∧ es' = es ++ [(k, v)]

/-- The entries of an inline table, one after another. Between the braces only dotted keys make
    tables, so there is nothing to be lenient about. -/
inductive Inlined : List (List Key × Key × Value) → Entries → Entries → Prop
  | nil (es : Entries) : Inlined [] es es
  | cons {path : List Key} {k : Key} {v : Value} {ps : List (List Key × Key × Value)} {es es₁ es' : Entries} :
      Into true .dotted (Adds path k v) path .inline es es₁ → Inlined ps es₁ es' → Inlined ((path, k, v) :: ps) es es'

variable {lenient : Bool} {via o : Origin} {act : Origin → Entries → Entries → Prop} {ks : List Key} {es es' : Entries}

theorem Passable.mono {via o : Origin} (h : Passable false via o) : Passable true via o := by
  refine ⟨h.1, fun hv => ?_⟩
  rcases h.2 hv with h | h
  · exact Or.inl h
  · cases h.1

/-- What is allowed strictly is allowed leniently. -/
theorem Into.mono (h : Into false via act ks o es es') : Into true via act ks o es es' := by
  induction h with
  | here h => exact .here h
  | fresh hk _ ih => exact .fresh hk ih
  | table hk hp _ ih => exact .table hk hp.mono ih
  | element hk _ _ ih => exact .element hk (fun _ => rfl) ih

theorem Into.imp {act' : Origin → Entries → Entries → Prop} (h : Into lenient via act ks o es es')
    (himp : ∀ o es es', act o es es' → act' o es es') : Into lenient via act' ks o es es' := by
  induction h with
  | here h => exact .here (himp _ _ _ h)
  | fresh hk _ ih => exact .fresh hk ih
  | table hk hp _ ih => exact .table hk hp ih
  | element hk hl _ ih => exact .element hk hl ih

/-- Where nothing is yet, a dotted key makes its tables. -/
theorem exists_into_adds (lenient : Bool) (path : List Key) (k : Key) (v : Value) (h : path ≠ []) (ks : List Key) :
    ∃ es, Into lenient .dotted (Adds path k v) ks .dotted [] es := by
  induction ks with
  | nil => exact ⟨_, .here ⟨iff_of_true rfl h, rfl, rfl⟩⟩
  | cons k₀ ks ih =>
    obtain ⟨sub, hsub⟩ := ih
    exact ⟨_, .fresh rfl hsub⟩

/-! ## The readers' way -/

theorem passable_iff : Passable true via o ↔ ¬ (o = .inline ∨ via = .dotted ∧ o = .header) := by
  unfold Passable
  cases o <;> simp

variable {β γ : Type} {f : Origin → Entries → Option (Entries × β)} {k : Key}

theorem atPath_nil : atPath via f [] o es = f o es := by
  rw [atPath]

theorem atPath_fresh (hk : es.get? k.name = none) :
    atPath via f (k :: ks) o es = (atPath via f ks via []).map fun x => (es ++ [(k, .table via none x.1)], x.2) := by
  rw [atPath, hk]

theorem atPath_table {o' : Origin} {m : Option Mark} {sub : Entries} (hk : es.get? k.name = some (.table o' m sub))
    (hp : Passable true via o') :
    atPath via f (k :: ks) o es = (atPath via f ks o' sub).map fun x => (es.set k.name (.table o' m x.1), x.2) := by
  rw [atPath, hk]
  exact if_neg (passable_iff.1 hp)

theorem atPath_element {o' : Origin} {m : Option Mark} {sub : Entries} {els : List Value}
    (hk : es.get? k.name = some (.tables (els ++ [.table o' m sub]))) :
    atPath via f (k :: ks) o es =
      (atPath via f ks o' sub).map fun x => (es.set k.name (.tables (els ++ [.table o' m x.1])), x.2) := by
  rw [atPath, hk]
  simp only [List.getLast?_concat, List.dropLast_concat]

/-- Everything that can stand at the first key of a path. -/
theorem entry_cases (via : Origin) (k : Key) (es : Entries) :
    es.get? k.name = none ∨
    (∃ o' m sub, es.get? k.name = some (.table o' m sub) ∧ Passable true via o') ∨
    (∃ els o' m sub, es.get? k.name = some (.tables (els ++ [.table o' m sub]))) ∨
    ∀ (β : Type) (f : Origin → Entries → Option (Entries × β)) (ks : List Key) (o : Origin),
      atPath via f (k :: ks) o es = none := by
  cases hk : es.get? k.name with
  | none => exact Or.inl rfl
  | some v =>
    right
    cases v with
    | table o' m sub =>
      by_cases hp : Passable true via o'
      · exact Or.inl ⟨o', m, sub, rfl, hp⟩
      · right
        right
        intro β f ks o
        rw [atPath, hk]
        exact if_pos (Decidable.not_not.1 fun h => hp (passable_iff.2 h))
    | tables els =>
      right
      cases hlast : els.getLast? with
      | none =>
        right
        intro β f ks o
        rw [atPath, hk]
        simp only [hlast]
      | some w =>
        obtain ⟨ys, rfl⟩ := List.getLast?_eq_some_iff.1 hlast
        cases w with
        | table o' m sub => exact Or.inl ⟨ys, o', m, sub, rfl⟩
        | scalar | array | tables =>
          right
          intro β f ks o
          rw [atPath, hk]
          simp only [List.getLast?_concat]
    | scalar | array =>
      right
      right
      intro β f ks o
      rw [atPath, hk]

/-- `atPath` follows the lenient rules. -/
theorem into_iff : Into true via (fun o es es' => ∃ b, f o es = some (es', b)) ks o es es' ↔
    ∃ b, atPath via f ks o es = some (es', b) := by
  constructor
  · intro h
    induction h with
    | here h => rwa [atPath_nil]
    | fresh hk _ ih =>
      obtain ⟨b, hb⟩ := ih
      exact ⟨b, by rw [atPath_fresh hk, hb]; rfl⟩
    | table hk hp _ ih =>
      obtain ⟨b, hb⟩ := ih
      exact ⟨b, by rw [atPath_table hk hp, hb]; rfl⟩
    | element hk _ _ ih =>
      obtain ⟨b, hb⟩ := ih
      exact ⟨b, by rw [atPath_element hk, hb]; rfl⟩
  · rintro ⟨b, hb⟩
    induction ks generalizing o es es' with
    | nil =>
      rw [atPath_nil] at hb
      exact .here ⟨b, hb⟩
    | cons k ks ih =>
      rcases entry_cases via k es with hk | ⟨o', m, sub, hk, hp⟩ | ⟨els, o', m, sub, hk⟩ | hnone
      · rw [atPath_fresh hk] at hb
        obtain ⟨x, hx, he⟩ := Option.map_eq_some_iff.1 hb
        cases he
        exact .fresh hk (ih hx)
      · rw [atPath_table hk hp] at hb
        obtain ⟨x, hx, he⟩ := Option.map_eq_some_iff.1 hb
        cases he
        exact .table hk hp (ih hx)
      · rw [atPath_element hk] at hb
        obtain ⟨x, hx, he⟩ := Option.map_eq_some_iff.1 hb
        cases he
        exact .element hk (fun _ => rfl) (ih hx)
      · rw [hnone] at hb
        cases hb

/-- A change along a path and the function that makes it. -/
theorem into_act_iff (h : ∀ o es es', act o es es' ↔ ∃ b, f o es = some (es', b)) :
    Into true via act ks o es es' ↔ ∃ b, atPath via f ks o es = some (es', b) := by
  rw [← into_iff]
  exact ⟨fun hi => hi.imp fun _ _ _ => (h _ _ _).1, fun hi => hi.imp fun _ _ _ => (h _ _ _).2⟩

theorem addEntry_eq_some_iff {path : List Key} {v : Value} :
    addEntry path k v o es = some es' ↔ Into true .dotted (Adds path k v) path o es es' := by
  have hact : ∀ o es es', Adds path k v o es es' ↔
      ∃ b : Unit, (if (o = .dotted ↔ path = []) then none
        else if (es.get? k.name).isSome then none else some (es ++ [(k, v)], ())) = some (es', b) := by
    intro o es es'
    unfold Adds
    by_cases hd : (o = .dotted ↔ path = [])
    · simp only [if_pos hd]
      constructor
      · rintro ⟨h, -⟩
        exact absurd (h.symm.trans hd) (by by_cases path = [] <;> simp_all)
      · rintro ⟨b, hb⟩
        cases hb
    · simp only [if_neg hd]
      have hd' : o = .dotted ↔ path ≠ [] := by
        by_cases h₁ : o = .dotted <;> by_cases h₂ : path = [] <;> simp_all
      cases hk : es.get? k.name with
      | none =>
        simp only [hd', true_and, Option.isSome_none, Bool.false_eq_true, if_false]
        constructor
        · rintro rfl
          exact ⟨(), rfl⟩
        · rintro ⟨b, hb⟩
          cases hb
          rfl
      | some w => simp
  rw [into_act_iff hact]
  unfold addEntry
  constructor
  · intro h
    obtain ⟨⟨es₁, b⟩, hx, he⟩ := Option.map_eq_some_iff.1 h
    cases he
    exact ⟨b, hx⟩
  · rintro ⟨b, hb⟩
    exact Option.map_eq_some_iff.2 ⟨_, hb, rfl⟩

theorem inlineEntries_eq_some_iff {ps : List (List Key × Key × Value)} :
    ps.foldlM (fun es p => addEntry p.1 p.2.1 p.2.2 .inline es) es = some es' ↔ Inlined ps es es' := by
  induction ps generalizing es with
  | nil =>
    constructor
    · intro h
      cases h
      exact .nil _
    · intro h
      cases h
      rfl
  | cons p ps ih =>
    obtain ⟨path, k, v⟩ := p
    rw [List.foldlM_cons, Option.bind_eq_bind, Option.bind_eq_some_iff]
    constructor
    · rintro ⟨es₁, h₁, h₂⟩
      exact .cons (addEntry_eq_some_iff.1 h₁) (ih.1 h₂)
    · intro h
      cases h with
      | cons h₁ h₂ => exact ⟨_, addEntry_eq_some_iff.2 h₁, ih.2 h₂⟩

/-! ## Two changes -/

namespace Entries

variable {n : List Char} {v w : Value}

theorem get?_append (h : es.get? k.name = none) : get? (es ++ [(k, v)]) k.name = some v := by
  simp only [get?, Option.map_eq_none_iff] at h
  simp [get?, List.find?_append, h]

theorem ne_of_get?_none (h : es.get? n = none) {e : Key × Value} (he : e ∈ es) : e.1.name ≠ n := by
  simp only [get?, Option.map_eq_none_iff, List.find?_eq_none] at h
  simpa using h e he

theorem set_append (h : es.get? k.name = none) : set (es ++ [(k, v)]) k.name w = es ++ [(k, w)] := by
  have hmap : es.map (fun e => if e.1.name = k.name then (e.1, w) else e) = es := by
    calc es.map (fun e => if e.1.name = k.name then (e.1, w) else e)
        = es.map id := List.map_congr_left fun e he => if_neg (ne_of_get?_none h he)
      _ = es := List.map_id _
  simp [set, hmap]

theorem set_set : set (set es n v) n w = set es n w := by
  simp only [set, List.map_map]
  refine List.map_congr_left fun e _ => ?_
  by_cases he : e.1.name = n
  · simp [he]
  · simp [he]

theorem get?_set (h : es.get? n = some w) : get? (set es n v) n = some v := by
  induction es with
  | nil => cases h
  | cons e es ih =>
    by_cases he : e.1.name = n
    · simp [set, get?, he]
    · have htail : get? es n = some w := by
        simpa [get?, he] using h
      have hset := ih htail
      simp only [set, get?] at hset ⊢
      simpa [he] using hset

end Entries

/-- Tables of the kind that a path makes are passed by the next path of the kind. -/
theorem passable_self (hvia : via = .implied ∨ via = .dotted) : Passable true via via := by
  rcases hvia with rfl | rfl
  · exact ⟨by decide, fun h => by cases h⟩
  · exact ⟨by decide, fun _ => Or.inl rfl⟩

/-- Two changes of the table at the end of one path are one change of it. -/
theorem atPath_bind (hvia : via = .implied ∨ via = .dotted) (f : Origin → Entries → Option (Entries × β))
    (g : β → Origin → Entries → Option (Entries × γ)) (ks : List Key) (o : Origin) (es : Entries) :
    ((atPath via f ks o es).bind fun x => atPath via (g x.2) ks o x.1) =
      atPath via (fun o es => (f o es).bind fun x => g x.2 o x.1) ks o es := by
  induction ks generalizing o es with
  | nil => simp only [atPath_nil]
  | cons k ks ih =>
    rcases entry_cases via k es with hk | ⟨o', m, sub, hk, hp⟩ | ⟨els, o', m, sub, hk⟩ | hnone
    · rw [atPath_fresh hk, atPath_fresh hk, ← ih, Option.bind_map, Option.map_bind]
      refine congrArg (Option.bind _) (funext fun x => ?_)
      simp only [Function.comp_apply, atPath_table (Entries.get?_append hk) (passable_self hvia), Entries.set_append hk]
    · rw [atPath_table hk hp, atPath_table hk hp, ← ih, Option.bind_map, Option.map_bind]
      refine congrArg (Option.bind _) (funext fun x => ?_)
      simp only [Function.comp_apply, atPath_table (Entries.get?_set hk) hp, Entries.set_set]
    · rw [atPath_element hk, atPath_element hk, ← ih, Option.bind_map, Option.map_bind]
      refine congrArg (Option.bind _) (funext fun x => ?_)
      simp only [Function.comp_apply, atPath_element (Entries.get?_set hk), Entries.set_set]
    · simp only [hnone, Option.bind_none]

/-- The way along a path and one key more. -/
theorem atPath_snoc (f : Origin → Entries → Option (Entries × β)) (ks : List Key) (k : Key) (o : Origin) (es : Entries) :
    atPath via f (ks ++ [k]) o es = atPath via (fun o es => atPath via f [k] o es) ks o es := by
  induction ks generalizing o es with
  | nil => rw [List.nil_append, atPath_nil]
  | cons k' ks ih =>
    rw [List.cons_append]
    rcases entry_cases via k' es with hk | ⟨o', m, sub, hk, hp⟩ | ⟨els, o', m, sub, hk⟩ | hnone
    · rw [atPath_fresh hk, atPath_fresh hk, ih]
    · rw [atPath_table hk hp, atPath_table hk hp, ih]
    · rw [atPath_element hk, atPath_element hk, ih]
    · rw [hnone, hnone]

end IconMaker.Toml
