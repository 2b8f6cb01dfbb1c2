import IconMaker.Proofs.FileSystem.Places

/-
  IconMaker.Proofs.FileSystem.Ways — which changes of files leave paths where they lead.

  A path finds its way through directories and links. Two file systems `SameWays` if they
  differ at most in places where each has a file or nothing; then every path that leads to a
  place in one leads there in the other (`walk_eq`, `moveTarget_eq`). Making, writing and
  erasing files keeps the ways, and so does moving one over another.
-/

namespace IconMaker.Files

/-- Nothing, or a file: no way goes on from here. -/
def isLeaf : Option Node → Bool
  | none | some (.file _ _) => true
  | some (.dir _) | some (.link _) => false

def SameWays (a b : Files) : Prop :=
  ∀ p, a.get? p = b.get? p ∨ isLeaf (a.get? p) = true ∧ isLeaf (b.get? p) = true

variable {a b : Files}

namespace SameWays

theorem refl (a : Files) : SameWays a a := fun _ => Or.inl rfl

theorem symm (h : SameWays a b) : SameWays b a := fun p =>
  (h p).imp Eq.symm And.symm

theorem trans {c : Files} (h : SameWays a b) (h' : SameWays b c) : SameWays a c := by
  intro p
  rcases h p with e | ⟨ha, hb⟩
  · rw [e]
    exact h' p
  · rcases h' p with e | ⟨_, hc⟩
    · exact Or.inr ⟨ha, e ▸ hb⟩
    · exact Or.inr ⟨ha, hc⟩

/-- A change in one place, from a leaf to a leaf. -/
theorem of_leaf {t : Place} (ha : isLeaf (a.get? t) = true) (hb : isLeaf (b.get? t) = true)
    (h : ∀ p, p ≠ t → b.get? p = a.get? p) : SameWays a b := by
  intro p
  by_cases e : p = t
  · subst e; exact Or.inr ⟨ha, hb⟩
  · exact Or.inl (h p e).symm

end SameWays

/-! ## Walking -/

theorem directoryMode_leaf {p : Place} (h : isLeaf (a.get? p) = true) (m : Mode) : a.directoryMode p ≠ .ok m := by
  unfold directoryMode
  cases hp : a.get? p with
  | none => simp
  | some v =>
    rw [hp] at h
    cases v with
    | file => simp
    | dir | link => cases h

theorem directoryMode_eq (h : SameWays a b) {p : Place} {m : Mode} (hm : a.directoryMode p = .ok m) :
    b.directoryMode p = .ok m := by
  rcases h p with e | ⟨ha, _⟩
  · unfold directoryMode at hm ⊢
    rw [← e]
    exact hm
  · exact absurd hm (directoryMode_leaf ha m)

theorem enter_eq (h : SameWays a b) {p : Place} {u : Unit} (hu : a.enter p = .ok u) : b.enter p = .ok u := by
  unfold enter at hu ⊢
  split at hu
  · cases hu
  · rename_i m hm
    rw [directoryMode_eq h hm]
    exact hu

theorem mayChange_eq (h : SameWays a b) {p : Place} {u : Unit} (hu : a.mayChange p = .ok u) : b.mayChange p = .ok u := by
  unfold mayChange at hu ⊢
  split at hu
  · cases hu
  · rename_i m hm
    rw [directoryMode_eq h hm]
    exact hu

theorem enter_leaf {p : Place} (h : isLeaf (a.get? p) = true) (u : Unit) : a.enter p ≠ .ok u := by
  unfold enter
  split
  · simp
  · exact absurd ‹_› (directoryMode_leaf h _)

/-- No way leads on from a leaf. -/
theorem walk_leaf {follow : Bool} {links : Nat} {at_ p : Place} {cs : List Component}
    (h : isLeaf (a.get? at_) = true) (hw : a.walk follow links at_ cs = .ok p) : cs = [] := by
  cases cs with
  | nil => rfl
  | cons c cs =>
    exfalso
    cases c with
    | directory =>
      rw [walk] at hw
      split at hw
      · cases hw
      · exact directoryMode_leaf h _ ‹_›
    | here | up | name n =>
      rw [walk] at hw
      split at hw
      · cases hw
      · exact enter_leaf h _ ‹_›

theorem walk_nil {follow : Bool} {links : Nat} {at_ : Place} : a.walk follow links at_ [] = .ok at_ := by
  rw [walk]

/-- A name at the end of a path may belong to nothing or to a file. -/
theorem walk_last {follow : Bool} {links : Nat} {at_ : Place} {n : Name} {u : Unit} (hu : a.enter at_ = .ok u)
    (hn : ¬ n.length > maxName) (hl : isLeaf (a.get? (n :: at_)) = true) :
    a.walk follow links at_ [.name n] = .ok (n :: at_) := by
  rw [walk, hu]
  simp only [if_neg hn]
  cases hp : a.get? (n :: at_) with
  | none => rfl
  | some v =>
    rw [hp] at hl
    cases v with
    | file => exact walk_nil
    | dir | link => cases hl

theorem walk_eq (h : SameWays a b) {follow : Bool} {links : Nat} {at_ p : Place} {cs : List Component}
    (hw : a.walk follow links at_ cs = .ok p) : b.walk follow links at_ cs = .ok p := by
  fun_induction walk a follow links at_ cs with
  | case1 => rw [walk]; exact hw
  | case3 links at_ r m hm ih =>
    rw [walk, directoryMode_eq h hm]
    exact ih hw
  | case5 links at_ r u hu ih | case7 links at_ r u hu ih =>
    rw [walk, enter_eq h hu]
    exact ih hw
  -- The last name: nothing has it in `a`, and in `b` at most a file.
  | case10 links at_ n u hu hn hp =>
    cases hw
    refine walk_last (enter_eq h hu) hn ?_
    rcases h (n :: at_) with e | ⟨_, hb⟩
    · rw [← e, hp]; rfl
    · exact hb
  | case12 links at_ n r u hu hn target hp hr =>
    have hb : b.get? (n :: at_) = some (.link target) := by
      rcases h (n :: at_) with e | ⟨ha, _⟩
      · rw [← e, hp]
      · rw [hp] at ha; cases ha
    rw [walk, enter_eq h hu]
    simp only [if_neg hn, hb, if_pos hr]
    exact hw
  | case14 at_ n r u hu hn target hp hr links ih =>
    have hb : b.get? (n :: at_) = some (.link target) := by
      rcases h (n :: at_) with e | ⟨ha, _⟩
      · rw [← e, hp]
      · rw [hp] at ha; cases ha
    rw [walk, enter_eq h hu]
    simp only [if_neg hn, hb, if_neg hr]
    exact ih hw
  | case15 links at_ n r u hu hn v hv hp ih =>
    rcases h (n :: at_) with e | ⟨ha, hb⟩
    · rw [walk, enter_eq h hu]
      simp only [if_neg hn, ← e, hp]
      cases v with
      | link target => exact absurd rfl (hv target)
      | file | dir => exact ih hw
    · have hr := walk_leaf ha hw
      subst hr
      rw [walk_nil] at hw
      cases hw
      exact walk_last (enter_eq h hu) hn hb
  | _ => cases hw

/-! ## Moving -/

theorem moveTarget_eq (h : SameWays a b) {cwd : Place} {path : Path} {p : Place}
    (hp : a.moveTarget cwd path = .ok p) : b.moveTarget cwd path = .ok p := by
  unfold moveTarget at hp ⊢
  split at hp
  · cases hp
  · split at hp
    · cases hp
    · split at hp
      · cases hp
      · rename_i d hw
        split at hp
        · cases hp
        · rename_i hu
          rw [walk_eq h hw]
          simp only [enter_eq h hu]
          exact hp

/-! ## What keeps the ways -/

theorem sameWays_insert {t : Place} {m : Mode} {c : Bytes} (h : a.get? t = none) :
    SameWays a (a.insert t (.file m c)) := by
  refine SameWays.of_leaf (t := t) (by rw [h]; rfl) ?_ fun p hp => ?_
  · rw [get?_insert (ne_nil_of_free h), if_pos rfl]; rfl
  · rw [get?_insert (ne_nil_of_free h), if_neg hp]

/-- A path that is walked to its end leads to the same place. -/
theorem resolve_eq (h : SameWays a b) {cwd : Place} {follow : Bool} {path : Path} {p : Place}
    (hp : a.resolve cwd follow path = .ok p) : b.resolve cwd follow path = .ok p := by
  unfold resolve at hp ⊢
  split at hp
  · cases hp
  · exact walk_eq h hp

/-- Making a file empty changes the place that its path leads to and no other one. -/
theorem truncate_eq {caller : Caller} {path : Path} {mode : Mode} {t : Place}
    (h : a.truncate caller path mode = .ok (t, b)) :
    a.resolve caller.cwd true path = .ok t ∧ isLeaf (a.get? t) = true ∧ (∃ m, b.get? t = some (.file m [])) ∧
      ∀ p, p ≠ t → b.get? p = a.get? p := by
  unfold truncate at h
  split at h
  · cases h
  · rename_i p hp
    split at h
    · rename_i old c hfile
      have hne : p ≠ [] := fun e => by subst e; cases hfile
      split at h
      · cases h
        refine ⟨hp, by rw [hfile]; rfl, ⟨old, ?_⟩, fun q hq => ?_⟩
        · rw [get?_set hne, if_pos rfl, hfile]; rfl
        · rw [get?_set hne, if_neg hq]
      · cases h
    · cases h
    · cases h
    · rename_i hfree
      split at h
      · cases h
      · cases h
        refine ⟨hp, by rw [hfree]; rfl, ⟨mode.masked caller.umask, ?_⟩, fun q hq => ?_⟩
        · rw [get?_insert (ne_nil_of_free hfree), if_pos rfl]
        · rw [get?_insert (ne_nil_of_free hfree), if_neg hq]

theorem sameWays_truncate {caller : Caller} {path : Path} {mode : Mode} {t : Place}
    (h : a.truncate caller path mode = .ok (t, b)) : SameWays a b := by
  obtain ⟨-, hleaf, ⟨m, hfile⟩, hsame⟩ := truncate_eq h
  exact .of_leaf hleaf (by rw [hfile]; rfl) hsame

end IconMaker.Files
