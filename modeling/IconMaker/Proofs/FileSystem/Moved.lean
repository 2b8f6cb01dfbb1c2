import IconMaker.Proofs.FileSystem.Names

/-
  IconMaker.Proofs.FileSystem.Moved — what a path leads to after a file was moved to it.

  The entry that a move makes is the one that the path leads to afterwards, if it still leads
  anywhere (`resolve_put`). It may lead nowhere: a path may go through the link that the move
  replaces.
-/

namespace IconMaker

namespace Component

/-- The way to the directory of a path, and the way to its last name. The first may end in a
    slash that the second has in its middle. -/
theorem ofParts_append (ps : List Bytes) {n : Bytes} (hne : n ≠ []) (hn : ofPart n = .name n) :
    ∃ cs ds, (ds = [] ∨ ds = [.directory]) ∧ ofParts ps = cs ++ ds ∧ ofParts (ps ++ [n]) = cs ++ [.name n] := by
  have hlast : ofParts [n] = [.name n] := by rw [ofParts, if_neg hne, hn]
  induction ps with
  | nil => exact ⟨[], [], Or.inl rfl, rfl, hlast⟩
  | cons p ps ih =>
    rw [List.cons_append, ofParts_cons p (show ps ++ [n] ≠ [] by simp)]
    by_cases hps : ps = []
    · subst hps
      rw [List.nil_append, hlast, ofParts]
      by_cases hp : p = []
      · rw [if_pos hp, if_pos hp]
        exact ⟨[], [.directory], Or.inr rfl, rfl, rfl⟩
      · rw [if_neg hp, if_neg hp]
        exact ⟨[ofPart p], [], Or.inl rfl, rfl, rfl⟩
    · obtain ⟨cs, ds, hds, hdir, hall⟩ := ih
      rw [ofParts_cons p hps, hdir, hall]
      by_cases hp : p = []
      · rw [if_pos hp, if_pos hp]
        exact ⟨cs, ds, hds, rfl, rfl⟩
      · rw [if_neg hp, if_neg hp]
        exact ⟨ofPart p :: cs, ds, hds, rfl, rfl⟩

end Component

namespace Files

variable {a b : Files} {follow : Bool} {links : Nat} {at_ d p q : Place} {n n' : Name} {r : List Component}

/-- A way that goes on behind a name goes on from no leaf. -/
theorem not_isLeaf_of_walk (hr : r ≠ []) (hw : b.walk follow links at_ (.name n :: r) = .ok q) :
    isLeaf (b.get? (n :: at_)) = false := by
  rw [walk] at hw
  split at hw
  · cases hw
  · split at hw
    · cases hw
    · cases hl : isLeaf (b.get? (n :: at_)) with
      | false => rfl
      | true =>
        split at hw
        · cases hw
        · rename_i hlink
          rw [hlink] at hl
          cases hl
        · exact absurd (walk_leaf hl hw) hr

/-- A way that ends at a leaf by its name ends there. -/
theorem walk_last_eq (hl : isLeaf (b.get? (n :: at_)) = true) (hw : b.walk follow links at_ [.name n] = .ok q) :
    q = n :: at_ := by
  rw [walk] at hw
  split at hw
  · cases hw
  · split at hw
    · cases hw
    · split at hw
      · cases hw; rfl
      · rename_i hlink
        rw [hlink] at hl
        cases hl
      · rw [walk] at hw
        cases hw; rfl

theorem walk_directory {ds : List Component} (hds : ds = [] ∨ ds = [.directory])
    (ha : a.walk follow links at_ ds = .ok d) : at_ = d := by
  rcases hds with rfl | rfl
  · rw [walk] at ha
    cases ha; rfl
  · rw [walk] at ha
    split at ha
    · cases ha
    · rw [walk] at ha
      cases ha; rfl

/-- A name on a way that goes on is not the one that has become a leaf. -/
theorem get?_on_way (hleaf : isLeaf (b.get? p) = true) (hsame : ∀ q, q ≠ p → b.get? q = a.get? q)
    (hw : b.walk follow links at_ (.name n :: r ++ [.name n']) = .ok q) :
    b.get? (n :: at_) = a.get? (n :: at_) ∧ a.get? (n :: at_) ≠ none := by
  have hgoes : isLeaf (b.get? (n :: at_)) = false := not_isLeaf_of_walk (by simp) hw
  have heq : b.get? (n :: at_) = a.get? (n :: at_) := by
    refine hsame _ fun e => ?_
    rw [e, hleaf] at hgoes
    cases hgoes
  refine ⟨heq, fun hnone => ?_⟩
  rw [heq, hnone] at hgoes
  cases hgoes

/-- Two ways from one place: the one to `d` in `a`, and the same and a name of `d` in `b`, where
    this name is a leaf and all else is as in `a`. The second one ends at the leaf. -/
theorem walk_replaced {cs ds : List Component} (hds : ds = [] ∨ ds = [.directory])
    (hleaf : isLeaf (b.get? (n :: d)) = true) (hsame : ∀ p, p ≠ n :: d → b.get? p = a.get? p)
    (ha : a.walk true links at_ (cs ++ ds) = .ok d) (hb : b.walk true links at_ (cs ++ [.name n]) = .ok q) :
    q = n :: d := by
  fun_induction walk a true links at_ cs with
  | case1 links at_ =>
    have hat : at_ = d := walk_directory hds ha
    subst hat
    exact walk_last_eq hleaf hb
  | case2 links at_ r e hm =>
    rw [List.cons_append, walk, hm] at ha
    cases ha
  | case3 links at_ r m hm ih =>
    rw [List.cons_append, walk, hm] at ha
    rw [List.cons_append, walk] at hb
    split at hb
    · cases hb
    · exact ih ha hb
  | case4 links at_ r e hu | case6 links at_ r e hu | case8 links at_ k r e hu =>
    rw [List.cons_append, walk, hu] at ha
    cases ha
  | case5 links at_ r u hu ih | case7 links at_ r u hu ih =>
    rw [List.cons_append, walk, hu] at ha
    rw [List.cons_append, walk] at hb
    split at hb
    · cases hb
    · exact ih ha hb
  | case9 links at_ k r u hu hk =>
    rw [List.cons_append, walk, hu] at ha
    simp only [if_pos hk] at ha
    cases ha
  | case10 links at_ k u hu hk hp | case11 links at_ k r u hu hk hp => exact absurd hp (get?_on_way hleaf hsame hb).2
  | case12 links at_ k r u hu hk target hp hr => exact absurd hr.2 (by decide)
  | case13 at_ k r u hu hk target hp hr =>
    rw [List.cons_append, walk, hu] at ha
    simp [hk, hp] at ha
  | case14 at_ k r u hu hk target hp hr links ih =>
    have hget := (get?_on_way hleaf hsame hb).1
    rw [List.cons_append, walk, hu] at ha
    rw [List.cons_append, walk] at hb
    simp only [if_neg hk, hp, hget, Bool.not_true, Bool.false_eq_true, and_false, if_false, ← List.append_assoc] at ha hb
    split at hb
    · cases hb
    · exact ih ha hb
  | case15 links at_ k r u hu hk v hv hp ih =>
    have hget := (get?_on_way hleaf hsame hb).1
    rw [List.cons_append, walk, hu] at ha
    rw [List.cons_append, walk] at hb
    simp only [if_neg hk, hp, hget] at ha hb
    split at hb
    · cases hb
    · cases v with
      | link target => exact absurd rfl (hv target)
      | file | dir => exact ih ha hb

theorem parts_of_splitLast {path : Path} {before : List Bytes} (h : splitLast path = (before, some n, false)) :
    Path.parts path = before ++ [n] ∧ n ≠ [] := by
  simp only [splitLast] at h
  split at h
  · cases h
  · rename_i m rest hd
    simp only [Prod.mk.injEq, Option.some.injEq] at h
    obtain ⟨rfl, rfl, hslash⟩ := h
    have hne : m ≠ [] := by
      have := List.head?_dropWhile_not (· == ([] : Bytes)) (Path.parts path).reverse
      rw [hd] at this
      simpa using this
    refine ⟨?_, hne⟩
    cases hrev : (Path.parts path).reverse with
    | nil =>
      rw [hrev] at hd
      cases hd
    | cons k ks =>
      rw [hrev, List.head?_cons] at hslash
      rw [hrev, List.dropWhile_cons_of_neg (by simpa using hslash)] at hd
      cases hd
      rw [← List.reverse_reverse (Path.parts path), hrev, List.reverse_cons]

variable {cwd : Place} {path : Path} {t : Place} {m : Mode} {c bs : Bytes}

/-- If the path still leads anywhere, it leads to the file that was moved to it. -/
theorem resolve_put (ht : a.moveTarget cwd path = .ok t) (hr : (a.put t (.file m c)).resolve cwd true path = .ok q) :
    q = t := by
  obtain ⟨before, k, d, hsplit, hk, hwalk, rfl⟩ := exists_of_moveTarget ht
  have hget : ∀ p, (a.put (k :: d) (.file m c)).get? p = if p = k :: d then some (.file m c) else a.get? p :=
    fun p => get?_put (List.cons_ne_nil k d)
  obtain ⟨hparts, hne⟩ := parts_of_splitLast hsplit
  obtain ⟨cs, ds, hds, hdir, hall⟩ := Component.ofParts_append before hne hk
  rw [hdir] at hwalk
  unfold resolve at hr
  split at hr
  · cases hr
  · rw [Component.ofPath, hparts, hall] at hr
    refine walk_replaced hds (by rw [hget, if_pos rfl]; rfl) (fun p hp => ?_) hwalk hr
    rw [hget, if_neg hp]

theorem get?_of_lookup {v : Node} (h : a.lookup cwd follow path = .ok (p, v)) : a.get? p = some v := by
  unfold lookup at h
  split at h
  · cases h
  · split at h
    · cases h
    · cases h
      assumption

/-- What is read at the end of a path is the content of the file there. -/
theorem exists_of_read (hr : a.read cwd path = .ok bs) :
    ∃ p mode, a.resolve cwd true path = .ok p ∧ a.get? p = some (.file mode bs) := by
  unfold read lookup at hr
  cases hp : a.resolve cwd true path with
  | error e => simp [hp] at hr
  | ok p =>
    cases hv : a.get? p with
    | none => simp [hp, hv] at hr
    | some v =>
      simp only [hp, hv] at hr
      cases v with
      | file mode c =>
        by_cases hread : mode.readable = true
        · simp only [if_pos hread, Except.ok.injEq] at hr
          exact ⟨p, mode, rfl, hr ▸ hv⟩
        · simp [if_neg hread] at hr
      | dir mode =>
        simp only at hr
        split at hr <;> cases hr
      | link target => cases hr

end Files

end IconMaker
