import IconMaker.Proofs.Toml.Insertion
import IconMaker.Toml.Document

/-
  IconMaker.Proofs.Toml.Tables — what the lines of a document say of its tables.

  `Grows` says how a document's tree changes with each statement: an entry goes into the table
  of the last header, a header makes a table or takes one that was only implied, a header of an
  array makes its next element. The reader keeps the table of the last header apart from the
  tree until the next header comes. That is the same: if it were put in its place after every
  statement, the tree would grow as `Grows` says (`State.bind_close_run`).
-/

namespace IconMaker.Toml

/-- What a line says. -/
inductive Statement where
  | pair (path : List Key) (k : Key) (v : Value)
  | table (path : List Key) (k : Key) (mark : Mark)
  | element (path : List Key) (k : Key) (mark : Mark)

/-! ## The rules -/

/-- A header's table: a new one, or one that was only implied, with the entries that it has.
    It stands where its header does. -/
inductive Opens (k : Key) (mark : Mark) : Origin → Entries → Entries → Prop
  | new {o : Origin} {es : Entries} : es.get? k.name = none →
      Opens k mark o es (es ++ [(k, .table .header (some mark) [])])
  | implied {o : Origin} {m : Option Mark} {es sub : Entries} : es.get? k.name = some (.table .implied m sub) →
      Opens k mark o es (es.erase k.name ++ [(k, .table .header (some mark) sub)])

/-- The next element of an array of tables. -/
inductive Lengthens (k : Key) (mark : Mark) : Origin → Entries → Entries → Prop
  | first {o : Origin} {es : Entries} : es.get? k.name = none →
      Lengthens k mark o es (es ++ [(k, .tables [.table .header (some mark) []])])
  | next {o : Origin} {es : Entries} {els : List Value} : es.get? k.name = some (.tables els) →
      Lengthens k mark o es (es.set k.name (.tables (els ++ [.table .header (some mark) []])))

/-- How a statement changes the tree, and which table the next entries go into: that at the end
    of a path of keys, the whole document before the first header. -/
inductive Grows (lenient : Bool) : List Key → Entries → Statement → List Key → Entries → Prop
  | pair {here path : List Key} {k : Key} {v : Value} {es es' : Entries} :
      Into lenient .implied (Into lenient .dotted (Adds path k v) path) here .header es es' →
      Grows lenient here es (.pair path k v) here es'
  | table {here path : List Key} {k : Key} {mark : Mark} {es es' : Entries} :
      Into lenient .implied (Opens k mark) path .header es es' →
      Grows lenient here es (.table path k mark) (path ++ [k]) es'
  | element {here path : List Key} {k : Key} {mark : Mark} {es es' : Entries} :
      Into lenient .implied (Lengthens k mark) path .header es es' →
      Grows lenient here es (.element path k mark) (path ++ [k]) es'

/-- The tree after all statements. -/
inductive Builds (lenient : Bool) : List Key → Entries → List Statement → Entries → Prop
  | nil {here : List Key} {es : Entries} : Builds lenient here es [] es
  | cons {here here' : List Key} {x : Statement} {xs : List Statement} {es es₁ es' : Entries} :
      Grows lenient here es x here' es₁ → Builds lenient here' es₁ xs es' → Builds lenient here es (x :: xs) es'

variable {here here' path : List Key} {x : Statement} {xs : List Statement} {es es' : Entries} {k : Key} {v : Value}
  {mark : Mark}

theorem Grows.mono (h : Grows false here es x here' es') : Grows true here es x here' es' := by
  cases h with
  | pair h => exact .pair (h.mono.imp fun _ _ _ h => h.mono)
  | table h => exact .table h.mono
  | element h => exact .element h.mono

theorem Builds.mono (h : Builds false here es xs es') : Builds true here es xs es' := by
  induction h with
  | nil => exact .nil
  | cons hx _ ih => exact .cons hx.mono ih

/-! ## The rules as functions -/

def addIn (path : List Key) (k : Key) (v : Value) (o : Origin) (es : Entries) : Option (Entries × Unit) :=
  (addEntry path k v o es).map fun es' => (es', ())

/-- The entries without the table that a header opens, and the entries of this table. -/
def takeTable (k : Key) (_ : Origin) (es : Entries) : Option (Entries × Entries) :=
  match es.get? k.name with
  | none => some (es, [])
  | some (.table .implied _ sub) => some (es.erase k.name, sub)
  | some _ => none

/-- The entries with an array of tables, which may have none yet. -/
def takeArray (k : Key) (_ : Origin) (es : Entries) : Option (Entries × Unit) :=
  match es.get? k.name with
  | none => some (es ++ [(k, .tables [])], ())
  | some (.tables _) => some (es, ())
  | some _ => none

/-- The entries with the table of a section in its place. -/
def place (c : Section) (_ : Origin) (es : Entries) : Option (Entries × Unit) :=
  match c.isElement, es.get? c.key.name with
  | true, some (.tables els) =>
    some (es.set c.key.name (.tables (els ++ [.table .header (some c.mark) c.entries])), ())
  | true, _ => none
  | false, none => some (es ++ [(c.key, .table .header (some c.mark) c.entries)], ())
  | false, some _ => none

def openIn (path : List Key) (k : Key) (mark : Mark) (o : Origin) (es : Entries) : Option (Entries × Unit) :=
  (takeTable k o es).bind fun x => place ⟨path, k, false, mark, x.2⟩ o x.1

def lengthenIn (path : List Key) (k : Key) (mark : Mark) (o : Origin) (es : Entries) : Option (Entries × Unit) :=
  (takeArray k o es).bind fun x => place ⟨path, k, true, mark, []⟩ o x.1

/-- The tree with one statement more. -/
def grow (here : List Key) (es : Entries) : Statement → Option (List Key × Entries)
  | .pair path k v => (atPath .implied (addIn path k v) here .header es).map fun x => (here, x.1)
  | .table path k mark =>
    (atPath .implied (openIn path k mark) path .header es).map fun x => (path ++ [k], x.1)
  | .element path k mark =>
    (atPath .implied (lengthenIn path k mark) path .header es).map fun x => (path ++ [k], x.1)

/-- Looking for a key that was erased. -/
theorem Entries.get?_erase (es : Entries) (n : List Char) : get? (erase es n) n = none := by
  simp only [get?, erase, Option.map_eq_none_iff, List.find?_eq_none]
  intro e he
  simpa using (List.mem_filter.1 he).2

theorem opens_iff (path : List Key) (k : Key) (mark : Mark) (o : Origin) (es es' : Entries) :
    Opens k mark o es es' ↔ ∃ b, openIn path k mark o es = some (es', b) := by
  unfold openIn takeTable
  constructor
  · intro h
    cases h with
    | new hk => simp only [hk, place, Option.bind_some]; exact ⟨(), trivial⟩
    | implied hk => simp only [hk, place, Entries.get?_erase, Option.bind_some]; exact ⟨(), trivial⟩
  · rintro ⟨b, hb⟩
    split at hb
    · rename_i hk
      simp only [place, hk, Option.bind_some] at hb
      cases hb
      exact .new hk
    · rename_i hk
      simp only [place, Entries.get?_erase, Option.bind_some] at hb
      cases hb
      exact .implied hk
    · cases hb

theorem lengthens_iff (path : List Key) (k : Key) (mark : Mark) (o : Origin) (es es' : Entries) :
    Lengthens k mark o es es' ↔ ∃ b, lengthenIn path k mark o es = some (es', b) := by
  unfold lengthenIn takeArray
  constructor
  · intro h
    cases h with
    | first hk =>
      simp only [hk, place, Entries.get?_append hk, Entries.set_append hk, List.nil_append, Option.bind_some]
      exact ⟨(), trivial⟩
    | next hk =>
      simp only [hk, place, Option.bind_some]
      exact ⟨(), trivial⟩
  · rintro ⟨b, hb⟩
    split at hb
    · rename_i hk
      simp only [place, Entries.get?_append hk, Entries.set_append hk, List.nil_append, Option.bind_some] at hb
      cases hb
      exact .first hk
    · rename_i els hk
      simp only [place, hk, Option.bind_some] at hb
      cases hb
      exact .next hk
    · cases hb

theorem map_fst_eq_some_iff {α β γ : Type} {a c : α} {b : β} {x : Option (β × γ)} :
    (x.map fun y => (c, y.1)) = some (a, b) ↔ c = a ∧ ∃ y, x = some (b, y) := by
  constructor
  · intro h
    obtain ⟨⟨b', y⟩, hx, he⟩ := Option.map_eq_some_iff.1 h
    cases he
    exact ⟨rfl, y, hx⟩
  · rintro ⟨rfl, y, rfl⟩
    rfl

/-- `grow` follows the lenient rules. -/
theorem grow_eq_some_iff : grow here es x = some (here', es') ↔ Grows true here es x here' es' := by
  cases x with
  | pair path k v =>
    have hadd : ∀ o es es',
        Into true .dotted (Adds path k v) path o es es' ↔ ∃ b, addIn path k v o es = some (es', b) := by
      intro o es es'
      rw [← addEntry_eq_some_iff]
      simp [addIn]
    rw [grow, map_fst_eq_some_iff, ← into_act_iff hadd]
    constructor
    · rintro ⟨rfl, h⟩
      exact .pair h
    · intro h
      cases h with
      | pair h => exact ⟨rfl, h⟩
  | table path k mark =>
    rw [grow, map_fst_eq_some_iff, ← into_act_iff (opens_iff path k mark)]
    constructor
    · rintro ⟨rfl, h⟩
      exact .table h
    · intro h
      cases h with
      | table h => exact ⟨rfl, h⟩
  | element path k mark =>
    rw [grow, map_fst_eq_some_iff, ← into_act_iff (lengthens_iff path k mark)]
    constructor
    · rintro ⟨rfl, h⟩
      exact .element h
    · intro h
      cases h with
      | element h => exact ⟨rfl, h⟩

/-! ## The reader's way -/

namespace State

variable {st st' : State}

/-- The reader's state after a statement. -/
def run (st : State) : Statement → Option State
  | .pair path k v => st.add path k v
  | .table path k mark => st.openTable path k mark
  | .element path k mark => st.openElement path k mark

/-- The path of the table that the next entries go into. -/
def target (st : State) : List Key :=
  match st.current with
  | none => []
  | some c => c.path ++ [c.key]

theorem close_current (root : Entries) (c : Section) :
    close ⟨root, some c⟩ = (atPath .implied (place c) c.path .header root).map (·.1) := rfl

theorem openTable_eq (hclose : st.close = some es) : st.openTable path k mark =
    (atPath .implied (takeTable k) path .header es).map fun x => ⟨x.1, some ⟨path, k, false, mark, x.2⟩⟩ := by
  rw [openTable, hclose, Option.map_eq_bind]
  rfl

theorem openElement_eq (hclose : st.close = some es) : st.openElement path k mark =
    (atPath .implied (takeArray k) path .header es).map fun x => ⟨x.1, some ⟨path, k, true, mark, []⟩⟩ := by
  rw [openElement, hclose, Option.map_eq_bind]
  rfl

end State

section Success

variable {β γ : Type} {f : Origin → Entries → Option (Entries × β)} {g : Origin → Entries → Option (Entries × γ)}
  {via o : Origin} {ks : List Key}

/-- Whether a change along a path succeeds depends on the change at its end only. -/
theorem atPath_isSome (h : ∀ o es, (f o es).isSome → (g o es).isSome) (hf : (atPath via f ks o es).isSome) :
    (atPath via g ks o es).isSome := by
  induction ks generalizing o es with
  | nil =>
    rw [atPath_nil] at hf ⊢
    exact h _ _ hf
  | cons k ks ih =>
    rcases entry_cases via k es with hk | ⟨o', m, sub, hk, hp⟩ | ⟨els, o', m, sub, hk⟩ | hnone
    · rw [atPath_fresh hk, Option.isSome_map] at hf ⊢
      exact ih hf
    · rw [atPath_table hk hp, Option.isSome_map] at hf ⊢
      exact ih hf
    · rw [atPath_element hk, Option.isSome_map] at hf ⊢
      exact ih hf
    · rw [hnone] at hf
      cases hf

theorem atPath_none : atPath via (fun _ _ => (none : Option (Entries × β))) ks o es = none := by
  induction ks generalizing o es with
  | nil => rw [atPath_nil]
  | cons k ks ih =>
    rcases entry_cases via k es with hk | ⟨o', m, sub, hk, hp⟩ | ⟨els, o', m, sub, hk⟩ | hnone
    · rw [atPath_fresh hk, ih, Option.map_none]
    · rw [atPath_table hk hp, ih, Option.map_none]
    · rw [atPath_element hk, ih, Option.map_none]
    · rw [hnone]

end Success

/-- A section has its place whatever entries it has. -/
theorem place_isSome (c : Section) (entries : Entries) (o : Origin) (es : Entries) :
    (place { c with entries } o es).isSome = (place c o es).isSome := by
  simp only [place]
  cases c.isElement with
  | true =>
    cases es.get? c.key.name with
    | none => rfl
    | some v => cases v <;> rfl
  | false => cases es.get? c.key.name <;> rfl

theorem takeTable_isSome {o : Origin} (h : (takeTable k o es).isSome) : (openIn path k mark o es).isSome := by
  unfold openIn takeTable at *
  split at h
  · rename_i hk
    simp only [place, hk, Option.bind_some]
    rfl
  · simp only [place, Entries.get?_erase, Option.bind_some]
    rfl
  · cases h

theorem takeArray_isSome {o : Origin} (h : (takeArray k o es).isSome) : (lengthenIn path k mark o es).isSome := by
  unfold lengthenIn takeArray at *
  split at h
  · rename_i hk
    simp only [place, Entries.get?_append hk, Option.bind_some]
    rfl
  · rename_i hk
    simp only [place, hk, Option.bind_some]
    rfl
  · cases h

/-- An entry goes into the table of a section before this is put in its place, or after. -/
theorem place_bind (c : Section) (path : List Key) (k : Key) (v : Value) (o : Origin) (es : Entries) :
    ((place c o es).bind fun x => atPath .implied (addIn path k v) [c.key] o x.1) =
      (addEntry path k v .header c.entries).bind fun es' => place { c with entries := es' } o es := by
  by_cases hnone : place c o es = none
  · have hall : ∀ es', place { c with entries := es' } o es = none := by
      intro es'
      rw [← Option.not_isSome_iff_eq_none, place_isSome, Option.not_isSome_iff_eq_none]
      exact hnone
    simp only [hnone, hall, Option.bind_none, Option.bind_fun_none]
  · have hadd : ∀ o, addIn path k v o c.entries = (addEntry path k v o c.entries).map fun es' => (es', ()) :=
      fun _ => rfl
    simp only [place] at hnone ⊢
    split at hnone
    · rename_i els _ hk
      simp only [Option.bind_some, atPath_element (Entries.get?_set hk), atPath_nil, Entries.set_set, hadd]
      cases addEntry path k v .header c.entries <;> rfl
    · exact absurd rfl hnone
    · rename_i _ hk
      have hpass : Passable true .implied .header := ⟨by decide, fun h => by cases h⟩
      simp only [Option.bind_some, atPath_table (Entries.get?_append hk) hpass, atPath_nil, Entries.set_append hk,
        hadd]
      cases addEntry path k v .header c.entries <;> rfl
    · exact absurd rfl hnone

namespace State

variable {st st' : State}

theorem atPath_openIn (path : List Key) (k : Key) (mark : Mark) (es : Entries) :
    atPath .implied (openIn path k mark) path .header es =
      (atPath .implied (takeTable k) path .header es).bind fun x =>
        atPath .implied (place ⟨path, k, false, mark, x.2⟩) path .header x.1 :=
  (atPath_bind (Or.inl rfl) (takeTable k) (fun sub => place ⟨path, k, false, mark, sub⟩) path .header es).symm

theorem atPath_lengthenIn (path : List Key) (k : Key) (mark : Mark) (es : Entries) :
    atPath .implied (lengthenIn path k mark) path .header es =
      (atPath .implied (takeArray k) path .header es).bind fun x =>
        atPath .implied (place ⟨path, k, true, mark, []⟩) path .header x.1 :=
  (atPath_bind (Or.inl rfl) (takeArray k) (fun _ => place ⟨path, k, true, mark, []⟩) path .header es).symm

/-- If the open section were put in its place after every statement, the tree would grow by the rules. -/
theorem bind_close_run (hclose : st.close = some es) (x : Statement) :
    ((st.run x).bind fun st' => st'.close.map fun es' => (st'.target, es')) = grow st.target es x := by
  cases x with
  | pair path k v =>
    obtain ⟨root, current⟩ := st
    cases current with
    | none =>
      cases hclose
      simp only [run, add, target, grow, atPath_nil, addIn, Option.map_map]
      cases addEntry path k v .header root <;> rfl
    | some c =>
      rw [close_current] at hclose
      obtain ⟨⟨es₁, b⟩, hplace, he⟩ := Option.map_eq_some_iff.1 hclose
      cases he
      have hgrow := atPath_bind (Or.inl rfl) (place c) (fun _ o es => atPath .implied (addIn path k v) [c.key] o es) c.path
        .header root
      rw [hplace, Option.bind_some, ← atPath_snoc] at hgrow
      simp only [place_bind] at hgrow
      rw [target, grow, hgrow]
      simp only [run, add]
      cases addEntry path k v .header c.entries with
      | none => simp only [Option.map_none, Option.bind_none, atPath_none]
      | some es' => simp only [Option.map_some, Option.bind_some, close_current, target, Option.map_map, Function.comp_def]
  | table path k mark =>
    rw [run, openTable_eq hclose, grow, atPath_openIn]
    simp only [Option.map_eq_bind, Option.bind_assoc, Option.bind_some, close_current, Function.comp_def]
    rfl
  | element path k mark =>
    rw [run, openElement_eq hclose, grow, atPath_lengthenIn]
    simp only [Option.map_eq_bind, Option.bind_assoc, Option.bind_some, close_current, Function.comp_def]
    rfl

/-- An open section can always be put in its place. -/
theorem isSome_close_run (hclose : st.close = some es) (hrun : st.run x = some st') : st'.close.isSome := by
  cases x with
  | pair path k v =>
    obtain ⟨root, current⟩ := st
    cases current with
    | none =>
      obtain ⟨es', -, rfl⟩ := Option.map_eq_some_iff.1 hrun
      rfl
    | some c =>
      obtain ⟨es', -, rfl⟩ := Option.map_eq_some_iff.1 hrun
      have hc : (close ⟨root, some c⟩).isSome := Option.isSome_of_eq_some hclose
      rw [close_current, Option.isSome_map] at hc ⊢
      exact atPath_isSome (fun o es h => by rwa [place_isSome]) hc
  | table path k mark =>
    rw [run, openTable_eq hclose] at hrun
    obtain ⟨x, hx, rfl⟩ := Option.map_eq_some_iff.1 hrun
    have hopen : (atPath .implied (openIn path k mark) path .header es).isSome :=
      atPath_isSome (fun _ _ => takeTable_isSome) (Option.isSome_of_eq_some hx)
    rw [atPath_openIn, hx, Option.bind_some] at hopen
    rw [close_current, Option.isSome_map]
    exact hopen
  | element path k mark =>
    rw [run, openElement_eq hclose] at hrun
    obtain ⟨x, hx, rfl⟩ := Option.map_eq_some_iff.1 hrun
    have hopen : (atPath .implied (lengthenIn path k mark) path .header es).isSome :=
      atPath_isSome (fun _ _ => takeArray_isSome) (Option.isSome_of_eq_some hx)
    rw [atPath_lengthenIn, hx, Option.bind_some] at hopen
    rw [close_current, Option.isSome_map]
    exact hopen

/-- A run of statements builds the tree that the rules say. -/
theorem close_runs_iff (hclose : st.close = some es) :
    (xs.foldlM run st).bind close = some es' ↔ Builds true st.target es xs es' := by
  induction xs generalizing st es with
  | nil =>
    rw [List.foldlM_nil, Option.pure_def, Option.bind_some, hclose]
    constructor
    · intro h
      cases h
      exact .nil
    · intro h
      cases h
      rfl
  | cons x xs ih =>
    have hstep := bind_close_run hclose x
    rw [List.foldlM_cons, Option.bind_eq_bind, Option.bind_assoc]
    constructor
    · intro h
      obtain ⟨st', hrun, hrest⟩ := Option.bind_eq_some_iff.1 h
      obtain ⟨es₁, hclose'⟩ := Option.isSome_iff_exists.1 (isSome_close_run hclose hrun)
      rw [hrun, Option.bind_some, hclose', Option.map_some] at hstep
      exact .cons (grow_eq_some_iff.1 hstep.symm) ((ih hclose').1 hrest)
    · intro h
      cases h with
      | cons hx hxs =>
        rw [grow_eq_some_iff.2 hx] at hstep
        obtain ⟨st', hrun, hmap⟩ := Option.bind_eq_some_iff.1 hstep
        obtain ⟨es₁, hclose', he⟩ := Option.map_eq_some_iff.1 hmap
        cases he
        rw [hrun, Option.bind_some]
        exact (ih hclose').2 hxs

end State

end IconMaker.Toml
