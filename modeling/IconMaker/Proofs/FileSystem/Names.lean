import IconMaker.Proofs.FileSystem.Ways

/-
  IconMaker.Proofs.FileSystem.Names — which names the entries bear that paths lead to.

  The entry that a move makes or replaces bears the file name of the path
  (`moveTarget_name`); a file made in a directory bears the name that it was given
  (`makeFile_name`), if that is a name and not a path.
-/

namespace IconMaker

namespace Path

theorem parts_ne_nil (p : Path) : parts p ≠ [] := by
  cases p with
  | nil => simp [parts]
  | cons b r =>
    unfold parts
    split
    · simp
    · split <;> simp

theorem parts_append (d n : Path) : parts (d ++ slash :: n) = parts d ++ parts n := by
  induction d with
  | nil => simp [parts]
  | cons b r ih =>
    rw [List.cons_append, parts, parts]
    by_cases hb : b = slash
    · rw [if_pos hb, if_pos hb, ih]; rfl
    · rw [if_neg hb, if_neg hb, ih]
      cases hr : parts r with
      | nil => exact absurd hr (parts_ne_nil r)
      | cons p ps => rfl

theorem parts_of_name {n : Bytes} (h : slash ∉ n) : parts n = [n] := by
  induction n with
  | nil => rfl
  | cons b r ih =>
    rw [List.mem_cons, not_or] at h
    rw [parts, if_neg (Ne.symm h.1), ih h.2]

end Path

namespace Component

theorem ofParts_cons (p : Bytes) {ps : List Bytes} (h : ps ≠ []) :
    ofParts (p :: ps) = if p = [] then ofParts ps else ofPart p :: ofParts ps := by
  cases ps with
  | nil => exact absurd rfl h
  | cons q qs => rfl

theorem getLast?_ofParts (ps : List Bytes) {n : Bytes} (hne : n ≠ []) (hn : ofPart n = .name n) :
    (ofParts (ps ++ [n])).getLast? = some (.name n) := by
  induction ps with
  | nil => simp [ofParts, hne, hn]
  | cons p ps ih =>
    rw [List.cons_append, ofParts_cons p (by simp)]
    split
    · exact ih
    · rw [List.getLast?_cons, ih]; rfl

end Component

namespace Files

variable {fs : Files} {cwd : Place}

theorem dropWhile_idle {ps : List Bytes} {n : Bytes} {before : List Bytes}
    (h : ps.dropWhile (· == []) = n :: before) (hn : Path.idle n = false) :
    ps.dropWhile Path.idle = n :: before := by
  induction ps with
  | nil => cases h
  | cons p ps ih =>
    by_cases hp : p = []
    · subst hp
      exact ih h
    · rw [List.dropWhile_cons_of_neg (by simpa using hp)] at h
      cases h
      exact List.dropWhile_cons_of_neg (by simp [hn])

theorem fileName?_of_splitLast {path : Path} {before : List Bytes} {n : Bytes} {slashes : Bool}
    (h : splitLast path = (before, some n, slashes)) (hn : Component.ofPart n = .name n) :
    Path.fileName? path = some n := by
  have hdot : n ≠ [Path.dot] := fun e => by simp [Component.ofPart, e] at hn
  have hup : n ≠ [Path.dot, Path.dot] := fun e => by simp [Component.ofPart, e, Path.dot] at hn
  simp only [splitLast] at h
  split at h
  · cases h
  · rename_i m rest hd
    simp only [Prod.mk.injEq, Option.some.injEq] at h
    obtain ⟨_, rfl, _⟩ := h
    have hne : m ≠ [] := by
      have := List.head?_dropWhile_not (· == ([] : Bytes)) (Path.parts path).reverse
      rw [hd] at this
      simpa using this
    unfold Path.fileName?
    rw [dropWhile_idle hd (by simp [Path.idle, hne, hdot])]
    simp [Path.isUp, hup]

/-- A path that can be used and ends in the name of an entry, with these parts before it. -/
structure LastName (path : Path) (before : List Bytes) (n : Name) : Prop where
  valid : checkPath path = .ok ()
  split : splitLast path = (before, some n, false)
  name : Component.ofPart n = .name n
  short : n.length ≤ maxName

/-- The target of a move is the last part of the path, in the directory that the parts before
    it lead to. -/
theorem moveTarget_eq_ok_iff {path : Path} {p : Place} : fs.moveTarget cwd path = .ok p ↔
    ∃ before n d, LastName path before n ∧
      fs.walk true maxLinks (startOf path cwd) (Component.ofParts before) = .ok d ∧ fs.enter d = .ok () ∧ p = n :: d := by
  constructor
  · intro h
    unfold moveTarget at h
    split at h
    · cases h
    · rename_i hvalid
      split at h
      · cases h
      · rename_i before n slashes hs
        split at h
        · cases h
        · rename_i d hw
          split at h
          · cases h
          · rename_i hd
            split at h
            · cases h
            · rename_i hn
              split at h
              · cases h
              · rename_i hlong
                cases slashes with
                | true => cases h
                | false =>
                  cases h
                  exact ⟨before, n, d, ⟨hvalid, hs, by simpa using hn, by omega⟩, hw, hd, rfl⟩
  · rintro ⟨before, n, d, ⟨hvalid, hs, hn, hshort⟩, hw, hd, rfl⟩
    simp [moveTarget, hvalid, hs, hw, hd, hn, Nat.not_lt.2 hshort]

theorem exists_of_moveTarget {path : Path} {p : Place} (h : fs.moveTarget cwd path = .ok p) :
    ∃ before n d, splitLast path = (before, some n, false) ∧ Component.ofPart n = .name n ∧
      fs.walk true maxLinks (startOf path cwd) (Component.ofParts before) = .ok d ∧ p = n :: d := by
  obtain ⟨before, n, d, hlast, hw, -, hp⟩ := moveTarget_eq_ok_iff.1 h
  exact ⟨before, n, d, hlast.split, hlast.name, hw, hp⟩

theorem moveTarget_name {path : Path} {p : Place} (h : fs.moveTarget cwd path = .ok p) :
    ∃ n d, p = n :: d ∧ Path.fileName? path = some n := by
  obtain ⟨before, n, d, hs, hn, -, rfl⟩ := exists_of_moveTarget h
  exact ⟨n, d, rfl, fileName?_of_splitLast hs hn⟩

theorem moveTarget_ne_nil {path : Path} {p : Place} (h : fs.moveTarget cwd path = .ok p) : p ≠ [] := by
  obtain ⟨_, _, rfl, -⟩ := moveTarget_name h
  exact List.cons_ne_nil _ _

/-- A walk that does not follow a link at its end ends in the last name. -/
theorem walk_name {links : Nat} {at_ p : Place} {cs : List Component} {n : Name}
    (hn : cs.getLast? = some (.name n)) (hw : fs.walk false links at_ cs = .ok p) : ∃ d, p = n :: d := by
  have tail : ∀ {c : Component} {r : List Component}, r ≠ [] → (c :: r).getLast? = some (.name n) →
      r.getLast? = some (.name n) := by
    intro c r hr h
    rwa [List.getLast?_cons_of_ne_nil hr] at h
  fun_induction walk fs false links at_ cs with
  | case1 => cases hn
  | case3 links at_ r _ _ ih | case5 links at_ r _ _ ih | case7 links at_ r _ _ ih =>
    refine ih (tail (fun e => ?_) hn) hw
    subst e
    cases hn
  | case10 links at_ k _ _ _ _ =>
    cases hn
    cases hw
    exact ⟨_, rfl⟩
  | case12 links at_ k r _ _ _ target _ hr =>
    obtain ⟨rfl, _⟩ := hr
    cases hn
    cases hw
    exact ⟨_, rfl⟩
  | case14 at_ k r _ _ _ target _ hr links ih =>
    have hne : r ≠ [] := fun e => hr ⟨e, rfl⟩
    refine ih ?_ hw
    rw [List.getLast?_append, tail hne hn]; rfl
  | case15 links at_ k r _ _ _ v _ _ ih =>
    by_cases hr : r = []
    · subst hr
      cases hn
      rw [walk] at hw
      cases hw
      exact ⟨_, rfl⟩
    · exact ih (tail hr hn) hw
  | _ => cases hw

theorem makeFile_name {caller : Caller} {d : Path} {n : Name} {m : Mode} {p : Place} {fs' : Files}
    (hslash : Path.slash ∉ n) (hne : n ≠ []) (hn : Component.ofPart n = .name n)
    (h : fs.makeFile caller d n m = .ok (p, fs')) : ∃ e, p = n :: e := by
  unfold makeFile at h
  split at h
  · cases h
  · rename_i at_ hr
    have hp : at_ = p := by
      split at h
      · cases h
      · split at h
        · cases h
        · cases h; rfl
    subst hp
    unfold resolve at hr
    split at hr
    · cases hr
    · refine walk_name ?_ hr
      unfold Component.ofPath inDirectory
      rw [Path.parts_append, Path.parts_of_name hslash]
      exact Component.getLast?_ofParts _ hne hn

end Files

end IconMaker
