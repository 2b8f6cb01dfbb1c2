import IconMaker.FileSystem.Operations

/-
  IconMaker.Proofs.FileSystem.Places — what the operations on files do to single places.

  `get?_insert`, `get?_set`, `get?_erase`, `get?_put`, `get?_append`: the place that is named
  changes and no other one does. A file that was made in a free place and is the only change
  so far can be written to, and be taken away again, as if the rest were not there
  (`append_insert`, `erase_insert`): after `erase` the file system is the same value as
  before.
-/

namespace IconMaker.Files

variable {fs : Files} {p q : Place} {v w : Node} {m : Mode} {c bs : Bytes}

/-! ## One place -/

theorem get?_eq_lookup (hp : p ≠ []) : fs.get? p = fs.entries.lookup p := by
  cases p with
  | nil => exact absurd rfl hp
  | cons n d => rfl

theorem ne_nil_of_free (h : fs.get? p = none) : p ≠ [] := by
  intro e
  subst e
  cases h

theorem get?_insert (hp : p ≠ []) : (fs.insert p v).get? q = if q = p then some v else fs.get? q := by
  cases q with
  | nil => rw [if_neg (Ne.symm hp)]; rfl
  | cons n d =>
    simp only [get?, insert, List.lookup_cons]
    by_cases e : n :: d = p
    · simp [e]
    · rw [if_neg e, beq_eq_false_iff_ne.mpr e]

theorem lookup_set (es : List (Place × Node)) :
    (es.map fun e => if e.1 = p then (p, v) else e).lookup q
      = if q = p then (es.lookup q).map fun _ => v else es.lookup q := by
  induction es with
  | nil => simp
  | cons e es ih =>
    obtain ⟨k, x⟩ := e
    simp only [List.map_cons, List.lookup_cons]
    by_cases ek : k = p
    · subst ek
      by_cases eq : q = k
      · subst eq; simp
      · simp only [if_pos, List.lookup_cons, beq_eq_false_iff_ne.mpr eq]
        rw [ih, if_neg eq]
    · simp only [if_neg ek, List.lookup_cons]
      by_cases eq : q = k
      · subst eq; simp [ek]
      · simp [beq_eq_false_iff_ne.mpr eq, ih]

theorem get?_set (hp : p ≠ []) :
    (fs.set p v).get? q = if q = p then (fs.get? q).map fun _ => v else fs.get? q := by
  cases q with
  | nil => rw [if_neg (Ne.symm hp)]; rfl
  | cons n d => exact lookup_set fs.entries

theorem get?_erase (hp : p ≠ []) : (fs.erase p).get? q = if q = p then none else fs.get? q := by
  cases q with
  | nil => rw [if_neg (Ne.symm hp)]; rfl
  | cons n d =>
    simp only [get?, erase]
    induction fs.entries with
    | nil => simp
    | cons e es ih =>
      obtain ⟨k, x⟩ := e
      by_cases ek : k = p
      · rw [List.filter_cons_of_neg (by simp [ek]), ih, List.lookup_cons]
        by_cases eq : n :: d = p
        · simp [eq]
        · rw [ek, beq_eq_false_iff_ne.mpr eq]
      · rw [List.filter_cons_of_pos (by simp [ek]), List.lookup_cons, List.lookup_cons, ih]
        by_cases eq : n :: d = k
        · subst eq; simp [ek]
        · rw [beq_eq_false_iff_ne.mpr eq]

theorem get?_put (hp : p ≠ []) : (fs.put p v).get? q = if q = p then some v else fs.get? q := by
  unfold put
  by_cases h : (fs.get? p).isSome
  · rw [if_pos h, get?_set hp]
    by_cases e : q = p
    · subst e
      obtain ⟨w, hw⟩ := Option.isSome_iff_exists.mp h
      simp [hw]
    · simp [e]
  · rw [if_neg h, get?_insert hp]

theorem get?_append (h : fs.get? p = some (.file m c)) (hp : p ≠ []) :
    (fs.append p bs).get? q = if q = p then some (.file m.afterWrite (c ++ bs)) else fs.get? q := by
  unfold append
  rw [h]
  simp only [get?_set hp]
  by_cases e : q = p
  · subst e; simp [h]
  · simp [e]

/-! ## A new file and nothing else -/

theorem ne_of_free (h : fs.get? p = none) {e : Place × Node} (he : e ∈ fs.entries) : e.1 ≠ p := by
  rw [get?_eq_lookup (ne_nil_of_free h), List.lookup_eq_none_iff] at h
  intro hp
  have := h e he
  rw [hp] at this
  simp at this

theorem set_of_free (h : fs.get? p = none) : fs.set p v = fs := by
  have : fs.entries.map (fun e => if e.1 = p then (p, v) else e) = fs.entries := by
    calc fs.entries.map (fun e => if e.1 = p then (p, v) else e)
        = fs.entries.map id := List.map_congr_left fun e he => by rw [if_neg (ne_of_free h he)]; rfl
      _ = fs.entries := List.map_id _
  exact congrArg Files.mk this

theorem set_insert (h : fs.get? p = none) : (fs.insert p v).set p w = fs.insert p w := by
  have hs := congrArg Files.entries (set_of_free (v := w) h)
  simp only [set] at hs
  simp [set, insert, hs]

theorem erase_insert (h : fs.get? p = none) : (fs.insert p v).erase p = fs := by
  have : fs.entries.filter (fun e => e.1 ≠ p) = fs.entries :=
    List.filter_eq_self.mpr fun e he => by simpa using ne_of_free h he
  unfold erase insert
  rw [List.filter_cons_of_neg (by simp), this]

theorem append_insert (h : fs.get? p = none) :
    (fs.insert p (.file m c)).append p bs = fs.insert p (.file m.afterWrite (c ++ bs)) := by
  unfold append
  rw [get?_insert (ne_nil_of_free h), if_pos rfl]
  exact set_insert h

theorem fileSize_insert (h : fs.get? p = none) : (fs.insert p (.file m c)).fileSize p = c.length := by
  unfold fileSize
  rw [get?_insert (ne_nil_of_free h), if_pos rfl]

theorem put_of_free (h : fs.get? p = none) : fs.put p v = fs.insert p v := by
  unfold put
  rw [h]
  rfl

theorem set_set : (fs.set p v).set p w = fs.set p w := by
  have : (fs.entries.map fun e => if e.1 = p then (p, v) else e).map (fun e => if e.1 = p then (p, w) else e) =
      fs.entries.map fun e => if e.1 = p then (p, w) else e := by
    rw [List.map_map]
    refine List.map_congr_left fun e _ => ?_
    by_cases he : e.1 = p <;> simp [he]
  exact congrArg Files.mk this

/-- What is put into a place twice might as well be put there once. -/
theorem put_put (hp : p ≠ []) : (fs.put p v).put p w = fs.put p w := by
  have htaken : ((fs.put p v).get? p).isSome = true := by rw [get?_put hp, if_pos rfl]; rfl
  rw [put, if_pos htaken]
  by_cases h : (fs.get? p).isSome = true
  · rw [put, if_pos h, put, if_pos h, set_set]
  · rw [put, if_neg h, put, if_neg h, set_insert (by simpa using h)]

theorem length_entries_put : (fs.put p v).entries.length ≤ fs.entries.length + 1 := by
  unfold put
  split
  · simp [set]
  · simp [insert]

/-! ## What making and moving a file did -/

theorem makeFile_eq {caller : Caller} {d : Path} {n : Name} {fs' : Files}
    (h : fs.makeFile caller d n m = .ok (p, fs')) :
    fs.resolve caller.cwd false (inDirectory d n) = .ok p ∧ fs.get? p = none ∧
      fs' = fs.insert p (.file (m.masked caller.umask) []) := by
  unfold makeFile at h
  split at h
  · cases h
  · rename_i r hr
    split at h
    · cases h
    · rename_i hfree
      split at h
      · cases h
      · cases h
        exact ⟨hr, by simpa using hfree, rfl⟩

theorem mayChange_of_makeFile {caller : Caller} {d : Path} {n : Name} {fs' : Files}
    (h : fs.makeFile caller d n m = .ok (p, fs')) : fs.mayChange p.tail = .ok () := by
  unfold makeFile at h
  split at h
  · cases h
  · split at h
    · cases h
    · split at h
      · cases h
      · cases h
        assumption

theorem move_eq {cwd : Place} {path : Path} {fs' : Files} (h : fs.move cwd p path = .ok fs') :
    ∃ target v, fs.moveTarget cwd path = .ok target ∧ fs.get? p = some v ∧
      (∀ m, fs.get? target ≠ some (.dir m)) ∧ fs' = if target = p then fs else (fs.erase p).put target v := by
  unfold move at h
  split at h
  · cases h
  · cases h
  · rename_i target v ht hv
    split at h
    · cases h
    · split at h
      · cases h
      · rename_i hd
        refine ⟨target, v, ht, hv, fun m hm => hd m hm, ?_⟩
        by_cases e : target = p
        · rw [if_pos e] at h ⊢
          cases h
          rfl
        · rw [if_neg e] at h ⊢
          cases h
          rfl

/-- A move of a file that is the only change so far puts it into one place. -/
theorem move_insert {cwd : Place} {path : Path} {fs' : Files} (h : fs.get? p = none)
    (hm : (fs.insert p v).move cwd p path = .ok fs') :
    ∃ target, (fs.insert p v).moveTarget cwd path = .ok target ∧ fs' = fs.put target v := by
  obtain ⟨target, w, ht, hw, -, rfl⟩ := move_eq hm
  rw [get?_insert (ne_nil_of_free h), if_pos rfl, Option.some.injEq] at hw
  subst hw
  refine ⟨target, ht, ?_⟩
  by_cases e : target = p
  · rw [if_pos e, e, put_of_free h]
  · rw [if_neg e, erase_insert h]

end IconMaker.Files
