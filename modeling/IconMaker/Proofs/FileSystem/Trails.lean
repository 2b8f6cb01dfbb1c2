import IconMaker.FileSystem.Operations

/-
  IconMaker.Proofs.FileSystem.Trails — which places a path depends on.

  `trail` lists the places that a walk comes through, the links that it follows among them. What
  stands in any other place has no influence: two file systems that agree on the trail of a path
  give the same answers about it (`walk_of_trail`, `lookup_of_trail`, `read_of_trail`).
-/

namespace IconMaker.Files

/-- The places of a walk that follows links, from where it begins to where it ends. -/
def trail (fs : Files) (links : Nat) (at_ : Place) : List Component → List Place
  | [] => [at_]
  | .directory :: r | .here :: r => trail fs links at_ r
  | .up :: r => at_ :: trail fs links at_.tail r
  | .name n :: r =>
    match fs.get? (n :: at_) with
    | some (.link target) =>
      match links with
      | 0 => [at_, n :: at_]
      | links + 1 => at_ :: (n :: at_) :: trail fs links (startOf target at_) (Component.ofPath target ++ r)
    | _ => at_ :: trail fs links (n :: at_) r
termination_by r => (links, r.length)

/-- The places on the way of a path. -/
def trailOf (fs : Files) (cwd : Place) (p : Path) : List Place :=
  fs.trail maxLinks (startOf p cwd) (Component.ofPath p)

variable {a b : Files} {links : Nat} {at_ p cwd : Place} {cs : List Component} {path : Path}

theorem start_mem_trail (a : Files) (links : Nat) (at_ : Place) (cs : List Component) : at_ ∈ a.trail links at_ cs := by
  fun_induction trail a links at_ cs with
  | case2 _ _ _ ih | case3 _ _ _ ih => exact ih
  | _ => exact List.mem_cons_self ..

theorem directoryMode_congr (h : b.get? p = a.get? p) : b.directoryMode p = a.directoryMode p := by
  unfold directoryMode
  rw [h]

theorem enter_congr (h : b.get? p = a.get? p) : b.enter p = a.enter p := by
  unfold enter
  rw [directoryMode_congr h]

theorem mayChange_congr (h : b.get? p = a.get? p) : b.mayChange p = a.mayChange p := by
  unfold mayChange
  rw [directoryMode_congr h]

/-- A walk that follows links depends on the places of its trail only. -/
theorem walk_of_trail (h : ∀ q ∈ a.trail links at_ cs, b.get? q = a.get? q) :
    b.walk true links at_ cs = a.walk true links at_ cs := by
  fun_induction trail a links at_ cs with
  | case1 links at_ => rw [walk, walk]
  | case2 links at_ r ih =>
    have hat := h at_ (start_mem_trail a links at_ r)
    rw [walk, walk, directoryMode_congr hat, ih h]
  | case3 links at_ r ih =>
    have hat := h at_ (start_mem_trail a links at_ r)
    rw [walk, walk, enter_congr hat, ih h]
  | case4 links at_ r ih =>
    rw [List.forall_mem_cons] at h
    rw [walk, walk, enter_congr h.1, ih h.2]
  | case5 at_ n r target hlink =>
    have hat := h at_ (by simp)
    have hname := h (n :: at_) (by simp)
    rw [walk, walk, enter_congr hat, hname]
    simp only [hlink]
  | case6 at_ n r target hlink links ih =>
    simp only [List.forall_mem_cons] at h
    obtain ⟨hat, hname, hrest⟩ := h
    rw [walk, walk, enter_congr hat, hname]
    simp only [hlink, ih hrest]
  | case7 links at_ n r hlink ih =>
    rw [List.forall_mem_cons] at h
    have hname := h.2 (n :: at_) (start_mem_trail a links _ r)
    rw [walk, walk, enter_congr h.1, hname]
    cases hv : a.get? (n :: at_) with
    | none => rfl
    | some v =>
      cases v with
      | link target => exact absurd hv (hlink target)
      | file | dir => simp only [ih h.2]

/-- A walk that arrives ends on its trail. -/
theorem mem_trail_of_walk (h : a.walk true links at_ cs = .ok p) : p ∈ a.trail links at_ cs := by
  fun_induction trail a links at_ cs with
  | case1 links at_ =>
    rw [walk] at h
    cases h
    exact List.mem_singleton_self _
  | case2 links at_ r ih =>
    rw [walk] at h
    split at h
    · cases h
    · exact ih h
  | case3 links at_ r ih =>
    rw [walk] at h
    split at h
    · cases h
    · exact ih h
  | case4 links at_ r ih =>
    rw [walk] at h
    split at h
    · cases h
    · exact List.mem_cons_of_mem _ (ih h)
  | case5 at_ n r target hlink =>
    rw [walk] at h
    split at h
    · cases h
    · split at h
      · cases h
      · simp [hlink] at h
  | case6 at_ n r target hlink links ih =>
    rw [walk] at h
    split at h
    · cases h
    · split at h
      · cases h
      · simp only [hlink, Bool.not_true, Bool.false_eq_true, and_false, if_false] at h
        exact List.mem_cons_of_mem _ (List.mem_cons_of_mem _ (ih h))
  | case7 links at_ n r hlink ih =>
    refine List.mem_cons_of_mem _ ?_
    rw [walk] at h
    split at h
    · cases h
    · split at h
      · cases h
      · split at h
        · split at h
          · cases h
            exact start_mem_trail ..
          · cases h
        · exact absurd ‹_› (hlink _)
        · exact ih h

theorem resolve_of_trail (h : ∀ q ∈ a.trailOf cwd path, b.get? q = a.get? q) :
    b.resolve cwd true path = a.resolve cwd true path := by
  unfold resolve
  rw [walk_of_trail h]

theorem lookup_of_trail (h : ∀ q ∈ a.trailOf cwd path, b.get? q = a.get? q) :
    b.lookup cwd true path = a.lookup cwd true path := by
  unfold lookup
  rw [resolve_of_trail h]
  cases hp : a.resolve cwd true path with
  | error e => rfl
  | ok p =>
    have hmem : p ∈ a.trailOf cwd path := by
      unfold resolve at hp
      split at hp
      · cases hp
      · exact mem_trail_of_walk hp
    simp only [h p hmem]

theorem read_of_trail (h : ∀ q ∈ a.trailOf cwd path, b.get? q = a.get? q) : b.read cwd path = a.read cwd path := by
  unfold read
  rw [lookup_of_trail h]

end IconMaker.Files
