import IconMaker.Proofs.FileSystem.Directories
import IconMaker.Proofs.Text.Lossy

/-
  IconMaker.Proofs.Path — the name in a path.

  A path is a lead, a last component and a tail. The lead is empty or ends in a slash, the tail
  is made of slashes and of dots behind slashes, and neither has a say in what is shown. The last
  component is a name, or it leads up, or there is none but dots.
  - `fileName?_eq_some_iff`: the file name is the last component, if that is a name.
  - `fileName?_eq_none_iff`: there is none exactly if the path is only idle or leads up.
  - `displayName_eq_iff`: what is shown of a path, whatever surrounds the name.
-/

namespace IconMaker.Path

variable {p d n q tail : Bytes} {before ps : List Bytes} {t : List Char}

/-! ## Shapes -/

/-- A component may begin behind it. -/
def IsLead (d : Bytes) : Prop := d = [] ∨ ∃ e, d = e ++ [slash]

/-- Slashes, and dots behind slashes. -/
inductive IsTail : Bytes → Prop
  | nil : IsTail []
  | slash {r : Bytes} : IsTail r → IsTail (slash :: r)
  | dot {r : Bytes} : IsTail r → IsTail (slash :: dot :: r)

/-- A component that is the name of an entry. -/
structure IsName (n : Bytes) : Prop where
  ne_nil : n ≠ []
  no_slash : slash ∉ n
  ne_dot : n ≠ [dot]
  ne_up : n ≠ [dot, dot]

/-- The last component that counts is `n`. -/
def EndsIn (p : Path) (n : Bytes) : Prop := ∃ d tail, IsLead d ∧ IsTail tail ∧ p = d ++ n ++ tail

/-- Nothing but slashes and components that are dots; nothing at all, maybe. -/
def IsIdle (p : Path) : Prop := IsTail p ∨ ∃ tail, IsTail tail ∧ p = dot :: tail

theorem IsTail.append (h : IsTail p) (hq : IsTail q) : IsTail (p ++ q) := by
  induction h with
  | nil => exact hq
  | slash _ ih => exact .slash ih
  | dot _ ih => exact .dot ih

/-! ## Shapes and parts -/

theorem idle_iff : idle q = true ↔ q = [] ∨ q = [dot] := by
  simp [idle]

theorem exists_parts_tail (h : IsTail tail) :
    ∃ ps, (∀ q ∈ ps, idle q = true) ∧ ∀ x, parts (x ++ tail) = parts x ++ ps := by
  induction h with
  | nil => exact ⟨[], by simp, fun x => by simp⟩
  | @slash r _ ih =>
    obtain ⟨ps, hps, hparts⟩ := ih
    refine ⟨[] :: ps, List.forall_mem_cons.2 ⟨rfl, hps⟩, fun x => ?_⟩
    have hr := hparts []
    rw [List.nil_append] at hr
    rw [parts_append, hr]
    rfl
  | @dot r _ ih =>
    obtain ⟨ps, hps, hparts⟩ := ih
    refine ⟨[Path.dot] :: ps, List.forall_mem_cons.2 ⟨rfl, hps⟩, fun x => ?_⟩
    have hr := hparts [Path.dot]
    rw [List.singleton_append] at hr
    rw [parts_append, hr]
    rfl

theorem exists_parts_lead (hd : IsLead d) (hn : slash ∉ n) : ∃ before, parts (d ++ n) = before ++ [n] := by
  rcases hd with rfl | ⟨e, rfl⟩
  · exact ⟨[], parts_of_name hn⟩
  · refine ⟨parts e, ?_⟩
    rw [List.append_assoc, List.singleton_append, parts_append, parts_of_name hn]

/-- A part with idle ones behind it, in its place in the path. -/
theorem exists_of_idle_parts (h : parts p = before ++ n :: ps) (hps : ∀ q ∈ ps, idle q = true) :
    slash ∉ n ∧ ∃ d tail, IsTail tail ∧ p = d ++ n ++ tail ∧
      (before = [] ∧ d = [] ∨ ∃ e, parts e = before ∧ d = e ++ [slash]) := by
  induction ps using List.reverseRecOn generalizing p with
  | nil =>
    obtain ⟨hslash, ⟨hbefore, rfl⟩ | ⟨e, he, rfl⟩⟩ := exists_of_parts h
    · exact ⟨hslash, [], [], .nil, by simp, Or.inl ⟨hbefore, rfl⟩⟩
    · exact ⟨hslash, e ++ [slash], [], .nil, by simp, Or.inr ⟨e, he, rfl⟩⟩
  | append_singleton ps q ih =>
    rw [List.forall_mem_append, List.forall_mem_singleton] at hps
    have hlast : parts p = (before ++ n :: ps) ++ [q] := by
      rw [h, List.append_assoc, List.cons_append]
    obtain ⟨-, ⟨hnil, -⟩ | ⟨x, hx, rfl⟩⟩ := exists_of_parts hlast
    · simp at hnil
    · obtain ⟨hslash, d, tail, htail, rfl, hd⟩ := ih hx hps.1
      have hq : IsTail (slash :: q) := by
        rcases idle_iff.1 hps.2 with rfl | rfl
        · exact .slash .nil
        · exact .dot .nil
      exact ⟨hslash, d, tail ++ slash :: q, htail.append hq, by simp, hd⟩

/-! ## The file name -/

theorem fileName?_of_endsIn (h : EndsIn p n) (hslash : slash ∉ n) (hn : idle n = false) :
    fileName? p = if isUp n then none else some n := by
  obtain ⟨d, tail, hd, htail, rfl⟩ := h
  obtain ⟨ps, hps, hparts⟩ := exists_parts_tail htail
  obtain ⟨before, hbefore⟩ := exists_parts_lead hd hslash
  have hreverse : (parts (d ++ n ++ tail)).reverse = ps.reverse ++ n :: before.reverse := by
    rw [hparts, hbefore]
    simp
  have hdrop : (parts (d ++ n ++ tail)).reverse.dropWhile idle = n :: before.reverse := by
    rw [hreverse, List.dropWhile_append_of_pos (by simpa using hps), List.dropWhile_cons_of_neg (by simp [hn])]
  rw [fileName?, hdrop]

theorem idle_parts {x : Bytes} (hx : idle x = true) (h : IsTail tail) : ∀ q ∈ parts (x ++ tail), idle q = true := by
  obtain ⟨ps, hps, hparts⟩ := exists_parts_tail h
  rw [hparts]
  rcases idle_iff.1 hx with rfl | rfl
  · exact List.forall_mem_cons.2 ⟨rfl, hps⟩
  · exact List.forall_mem_cons.2 ⟨rfl, hps⟩

theorem fileName?_of_isIdle (h : IsIdle p) : fileName? p = none := by
  have hall : ∀ q ∈ parts p, idle q = true := by
    rcases h with h | ⟨tail, h, rfl⟩
    · exact idle_parts (x := []) rfl h
    · exact idle_parts (x := [dot]) rfl h
  rw [fileName?, List.dropWhile_eq_nil_iff.2 (by simpa using hall)]

/-- Either a path has a last component that is not idle, or it is idle. -/
theorem endsIn_or_isIdle (p : Path) : (∃ n, EndsIn p n ∧ slash ∉ n ∧ idle n = false) ∨ IsIdle p := by
  cases hd : (parts p).reverse.dropWhile idle with
  | nil =>
    have hall : ∀ q ∈ parts p, idle q = true := by simpa using List.dropWhile_eq_nil_iff.1 hd
    obtain ⟨q, ps, hparts⟩ := List.exists_cons_of_ne_nil (parts_ne_nil p)
    rw [hparts, List.forall_mem_cons] at hall
    have hfirst : parts p = [] ++ q :: ps := hparts
    obtain ⟨-, d, tail, htail, rfl, ⟨-, rfl⟩ | ⟨e, he, -⟩⟩ := exists_of_idle_parts hfirst hall.2
    · refine Or.inr ?_
      rcases idle_iff.1 hall.1 with rfl | rfl
      · exact Or.inl htail
      · exact Or.inr ⟨tail, htail, rfl⟩
    · exact absurd he (parts_ne_nil e)
  | cons n before =>
    have hn : idle n = false := by
      have := List.head?_dropWhile_not idle (parts p).reverse
      rw [hd] at this
      simpa using this
    have hparts : parts p = before.reverse ++ n :: ((parts p).reverse.takeWhile idle).reverse := by
      have hsplit := List.takeWhile_append_dropWhile (p := idle) (l := (parts p).reverse)
      rw [hd, ← List.reverse_inj] at hsplit
      simpa using hsplit.symm
    have hidle : ∀ q ∈ ((parts p).reverse.takeWhile idle).reverse, idle q = true := fun q hq =>
      List.mem_takeWhile_imp (List.mem_reverse.1 hq)
    obtain ⟨hslash, d, tail, htail, hp, hlead⟩ := exists_of_idle_parts hparts hidle
    refine Or.inl ⟨n, ⟨d, tail, ?_, htail, hp⟩, hslash, hn⟩
    rcases hlead with ⟨-, rfl⟩ | ⟨e, -, rfl⟩
    · exact Or.inl rfl
    · exact Or.inr ⟨e, rfl⟩

theorem IsName.not_idle (h : IsName n) : idle n = false := by
  rw [Bool.eq_false_iff, Ne, idle_iff]
  exact not_or_intro h.ne_nil h.ne_dot

/-- The file name is the last component of the path, if that is a name. -/
theorem fileName?_eq_some_iff : fileName? p = some n ↔ EndsIn p n ∧ IsName n := by
  constructor
  · intro h
    rcases endsIn_or_isIdle p with ⟨m, hends, hslash, hm⟩ | hidle
    · rw [fileName?_of_endsIn hends hslash hm] at h
      split at h
      · cases h
      · rename_i hup
        cases h
        have hne : ¬ (n = [] ∨ n = [dot]) := by
          rw [← idle_iff, hm]
          exact Bool.false_ne_true
        rw [not_or] at hne
        exact ⟨hends, hne.1, hslash, hne.2, by simpa [isUp] using hup⟩
    · rw [fileName?_of_isIdle hidle] at h
      cases h
  · rintro ⟨hends, hn⟩
    rw [fileName?_of_endsIn hends hn.no_slash hn.not_idle, if_neg]
    simpa [isUp] using hn.ne_up

/-- There is none if the path is idle or leads up at its end, and only then. -/
theorem fileName?_eq_none_iff : fileName? p = none ↔ IsIdle p ∨ EndsIn p [dot, dot] := by
  constructor
  · intro h
    rcases endsIn_or_isIdle p with ⟨m, hends, hslash, hm⟩ | hidle
    · rw [fileName?_of_endsIn hends hslash hm] at h
      split at h
      · rename_i hup
        have he : m = [dot, dot] := by simpa [isUp] using hup
        exact Or.inr (he ▸ hends)
      · cases h
    · exact Or.inl hidle
  · rintro (hidle | hends)
    · exact fileName?_of_isIdle hidle
    · exact fileName?_of_endsIn hends (by decide) (by decide)

/-! ## What is shown -/

/-- The last component that counts is a name. -/
def HasName (p : Path) : Prop := ∃ n, EndsIn p n ∧ IsName n

/-- The text that stands for a path: that of its name, or of all of it. -/
inductive ShownAs : Path → List Char → Prop
  | name {p : Path} {n : Bytes} {t : List Char} : EndsIn p n → IsName n → Text.Replaced n t → ShownAs p t
  | whole {p : Path} {t : List Char} : ¬ HasName p → Text.Replaced p t → ShownAs p t

theorem fileName?_eq_none_of_not_hasName (h : ¬ HasName p) : fileName? p = none := by
  rw [Option.eq_none_iff_forall_ne_some]
  intro n hn
  exact h ⟨n, fileName?_eq_some_iff.1 hn⟩

theorem not_hasName_iff : ¬ HasName p ↔ IsIdle p ∨ EndsIn p [dot, dot] := by
  rw [← fileName?_eq_none_iff]
  refine ⟨fileName?_eq_none_of_not_hasName, fun h hn => ?_⟩
  obtain ⟨n, hn⟩ := hn
  rw [fileName?_eq_some_iff.2 hn] at h
  cases h

/-- The bytes that are shown of a path. -/
def shownPart (p : Path) : Bytes := (fileName? p).getD p

theorem shownPart_of_endsIn (h : EndsIn p n) (hn : IsName n) : shownPart p = n := by
  rw [shownPart, fileName?_eq_some_iff.2 ⟨h, hn⟩, Option.getD_some]

theorem shownPart_of_not_hasName (h : ¬ HasName p) : shownPart p = p := by
  rw [shownPart, fileName?_eq_none_of_not_hasName h, Option.getD_none]

theorem shownAs_iff : ShownAs p t ↔ Text.Replaced (shownPart p) t := by
  constructor
  · intro h
    cases h with
    | name hends hn ht => rwa [shownPart_of_endsIn hends hn]
    | whole hp ht => rwa [shownPart_of_not_hasName hp]
  · intro h
    by_cases hp : HasName p
    · obtain ⟨n, hends, hn⟩ := hp
      rw [shownPart_of_endsIn hends hn] at h
      exact .name hends hn h
    · rw [shownPart_of_not_hasName hp] at h
      exact .whole hp h

theorem displayName_eq_iff : displayName p = t ↔ ShownAs p t := by
  rw [shownAs_iff, Text.replaced_iff]
  rfl

theorem existsUnique_shownAs (p : Path) : ∃! t, ShownAs p t :=
  ⟨displayName p, displayName_eq_iff.1 rfl, fun _ ht => (displayName_eq_iff.2 ht).symm⟩

theorem shownAs_iff_of_endsIn (h : EndsIn p n) (hn : IsName n) : ShownAs p t ↔ Text.Replaced n t := by
  rw [shownAs_iff, shownPart_of_endsIn h hn]

theorem shownAs_iff_of_not_hasName (h : ¬ HasName p) : ShownAs p t ↔ Text.Replaced p t := by
  rw [shownAs_iff, shownPart_of_not_hasName h]

end IconMaker.Path
