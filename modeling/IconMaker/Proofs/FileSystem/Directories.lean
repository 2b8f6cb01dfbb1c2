import IconMaker.Proofs.FileSystem.Moved
import IconMaker.Proofs.FileSystem.Trails
import Mathlib.Data.List.DropRight

/-
  IconMaker.Proofs.FileSystem.Directories — the directory that the entry of a path is in.

  A program that makes a file beside an entry forms the path of the entry's directory
  (`Path.directory`). A move finds the entry itself, behind all parts of its path but the last.
  Both come to the same directory: the two ways differ in idle components at their ends only
  (`trimEnd_directory`), and these lead nowhere else (`walk_trimEnd`). So an entry is the last
  name of its path in the directory that `Path.directory` leads to (`moveTarget_iff`).
-/

namespace IconMaker

/-! ## Idle components -/

namespace Component

/-- Does it lead nowhere else? -/
def isIdle : Component → Bool
  | .here | .directory => true
  | .up | .name _ => false

/-- Without the idle components at the end. -/
def trimEnd (cs : List Component) : List Component := cs.rdropWhile isIdle

/-- The components of the parts that are not empty. -/
def named (ps : List Bytes) : List Component := (ps.filter fun p => p ≠ []).map ofPart

theorem named_append (ps qs : List Bytes) : named (ps ++ qs) = named ps ++ named qs := by
  rw [named, List.filter_append, List.map_append]
  rfl

/-- Empty parts count at the end only. -/
theorem ofParts_eq (ps : List Bytes) :
    ofParts ps = named ps ++ if ps.getLast? = some [] then [.directory] else [] := by
  induction ps with
  | nil => rfl
  | cons p ps ih =>
    by_cases hps : ps = []
    · subst hps
      by_cases hp : p = []
      · simp [ofParts, named, hp]
      · simp [ofParts, named, hp]
    · rw [ofParts_cons p hps, ih, List.getLast?_cons_of_ne_nil hps]
      by_cases hp : p = []
      · simp [named, hp]
      · simp [named, hp]

theorem trimEnd_append_idle (cs : List Component) {c : Component} (hc : c.isIdle = true) :
    trimEnd (cs ++ [c]) = trimEnd cs := List.rdropWhile_concat_pos _ _ _ hc

theorem trimEnd_ofParts (ps : List Bytes) : trimEnd (ofParts ps) = trimEnd (named ps) := by
  rw [ofParts_eq]
  split
  · exact trimEnd_append_idle _ rfl
  · rw [List.append_nil]

/-- What is trimmed is idle. -/
theorem exists_trimEnd (cs : List Component) : ∃ ds, cs = trimEnd cs ++ ds ∧ ∀ c ∈ ds, c.isIdle = true :=
  ⟨cs.rtakeWhile isIdle, List.rdropWhile_append_rtakeWhile.symm, fun _ hc => List.mem_rtakeWhile_imp hc⟩

end Component

/-! ## Paths of directories -/

namespace Path

variable {p d x : Path} {n : Bytes} {before : List Bytes}

theorem parts_snoc_slash (d : Path) : parts (d ++ [slash]) = parts d ++ [[]] := parts_append d []

/-- On the path backwards. -/
theorem go_suffix (r : List UInt8) : trimEnd.go r <:+ r := by
  fun_induction trimEnd.go r with
  | case3 r _ ih => exact ih.trans (List.suffix_cons ..)
  | case4 r _ ih => exact ih.trans (List.suffix_cons ..)
  | _ => exact List.suffix_refl _

theorem go_ne_nil {r : List UInt8} (h : r ≠ []) : trimEnd.go r ≠ [] := by
  fun_induction trimEnd.go r with
  | case1 => exact absurd rfl h
  | case3 r hr ih => exact ih hr
  | case4 r _ ih => exact ih (List.cons_ne_nil _ _)
  | _ => exact List.cons_ne_nil _ _

/-- What is trimmed off a path are idle components. -/
theorem trimEnd_named_go (r : List UInt8) :
    Component.trimEnd (Component.named (parts (trimEnd.go r).reverse)) =
      Component.trimEnd (Component.named (parts r.reverse)) := by
  fun_induction trimEnd.go r with
  | case3 r _ ih =>
    rw [ih, List.reverse_cons, parts_snoc_slash, Component.named_append]
    simp [Component.named]
  | case4 r _ ih =>
    have hdot : (dot :: slash :: r).reverse = r.reverse ++ slash :: [dot] := by simp
    have hidle : Component.named (parts [dot]) = [.here] := rfl
    rw [ih, hdot, parts_append, Component.named_append, hidle, Component.trimEnd_append_idle _ rfl, List.reverse_cons,
      parts_snoc_slash, Component.named_append]
    simp [Component.named]
  | _ => rfl

theorem isPrefix_trimEnd (p : Path) : trimEnd p <+: p := by
  rw [← List.reverse_suffix, trimEnd, List.reverse_reverse]
  exact go_suffix p.reverse

theorem trimEnd_ne_nil (h : p ≠ []) : trimEnd p ≠ [] :=
  List.reverse_ne_nil_iff.2 (go_ne_nil (List.reverse_ne_nil_iff.2 h))

theorem trimEnd_named (p : Path) :
    Component.trimEnd (Component.named (parts (trimEnd p))) = Component.trimEnd (Component.named (parts p)) := by
  have h := trimEnd_named_go p.reverse
  rwa [List.reverse_reverse] at h

/-- The last part of a path has no slash, and one is before it unless it is the whole path. -/
theorem exists_of_parts (h : parts p = before ++ [n]) :
    slash ∉ n ∧ (before = [] ∧ p = n ∨ ∃ d, parts d = before ∧ p = d ++ slash :: n) := by
  induction p generalizing before n with
  | nil =>
    obtain ⟨rfl, rfl⟩ : before = [] ∧ n = [] := by
      cases before <;> simp_all [parts]
    exact ⟨List.not_mem_nil, Or.inl ⟨rfl, rfl⟩⟩
  | cons b r ih =>
    by_cases hb : b = slash
    · subst hb
      rw [parts, if_pos rfl] at h
      cases before with
      | nil => 
        rw [List.nil_append, List.cons.injEq] at h
        exact absurd h.2 (parts_ne_nil r)
      | cons q before =>
        rw [List.cons_append, List.cons.injEq] at h
        obtain ⟨rfl, hr⟩ := h
        obtain ⟨hslash, ⟨rfl, rfl⟩ | ⟨d, rfl, rfl⟩⟩ := ih hr
        · exact ⟨hslash, Or.inr ⟨[], rfl, rfl⟩⟩
        · exact ⟨hslash, Or.inr ⟨slash :: d, by rw [parts, if_pos rfl], rfl⟩⟩
    · cases hr : parts r with
      | nil => exact absurd hr (parts_ne_nil r)
      | cons q qs =>
        rw [parts, if_neg hb, hr] at h
        cases before with
        | nil =>
          obtain ⟨rfl, rfl⟩ := List.cons.inj h
          have hlast : parts r = [] ++ [q] := hr
          obtain ⟨hslash, ⟨-, rfl⟩ | ⟨d, hd, -⟩⟩ := ih hlast
          · exact ⟨by simpa [Ne.symm hb] using hslash, Or.inl ⟨rfl, rfl⟩⟩
          · exact absurd hd (parts_ne_nil d)
        | cons q' before =>
          rw [List.cons_append, List.cons.injEq] at h
          obtain ⟨rfl, rfl⟩ := h
          have hlast : parts r = q :: before ++ [n] := hr
          obtain ⟨hslash, ⟨he, -⟩ | ⟨d, hd, rfl⟩⟩ := ih hlast
          · cases he
          · exact ⟨hslash, Or.inr ⟨b :: d, by rw [parts, if_neg hb, hd], rfl⟩⟩

/-- A path that ends in a name has nothing to be trimmed. -/
theorem trimEnd_append_name (x : Path) (hne : n ≠ []) (hdot : n ≠ [dot]) (hslash : slash ∉ n) :
    trimEnd (x ++ n) = x ++ n := by
  have hrev : slash ∉ n.reverse := by rwa [List.mem_reverse]
  have hgo : trimEnd.go (n.reverse ++ x.reverse) = n.reverse ++ x.reverse := by
    cases hn : n.reverse with
    | nil => exact absurd hn (List.reverse_ne_nil_iff.2 hne)
    | cons b r =>
      rw [hn, List.mem_cons, not_or] at hrev
      cases r with
      | nil =>
        have hb : b ≠ dot := by
          intro hb
          rw [List.reverse_eq_iff, hb] at hn
          exact hdot hn
        rw [List.cons_append, trimEnd.go.eq_def]
        simp only [if_neg (Ne.symm hrev.1), if_neg hb]
      | cons c r =>
        rw [List.mem_cons, not_or] at hrev
        rw [List.cons_append, List.cons_append, trimEnd.go.eq_def]
        simp only [if_neg (Ne.symm hrev.1), if_neg (Ne.symm hrev.2.1), ite_self]
  rw [trimEnd, List.reverse_append, hgo, List.reverse_append, List.reverse_reverse, List.reverse_reverse]

/-- The directory is what stands before the last name. -/
theorem directory_append_name (hx : x = [] ∨ ∃ d, x = d ++ [slash]) (hne : n ≠ []) (hdot : n ≠ [dot])
    (hslash : slash ∉ n) : directory (x ++ n) = if x = [] then [dot] else trimEnd x := by
  have hrest : ((x ++ n).reverse.dropWhile (· ≠ slash)).reverse = x := by
    have hpass : ∀ b ∈ n.reverse, decide (b ≠ slash) = true := by
      intro b hb
      rw [List.mem_reverse] at hb
      exact decide_eq_true fun e => hslash (e ▸ hb)
    rw [List.reverse_append, List.dropWhile_append_of_pos hpass]
    rcases hx with rfl | ⟨d, rfl⟩
    · rfl
    · simp
  have hnil : x ++ n ≠ [] := by simp [hne]
  have hroot : x ++ n ≠ [slash] := by
    intro e
    rcases List.append_eq_singleton_iff.1 e with ⟨-, rfl⟩ | ⟨-, rfl⟩
    · exact hslash (List.mem_singleton_self _)
    · exact hne rfl
  have hparent : parent? (x ++ n) = some (trimEnd x) := by
    simp only [parent?, trimEnd_append_name x hne hdot hslash, if_neg hroot, hrest]
  rw [directory, hparent]
  by_cases hnone : x = []
  · subst hnone
    rfl
  · simp only [if_neg hnone, if_neg (trimEnd_ne_nil hnone)]

/-- What `directory` makes of a path that ends in a name. -/
theorem directory_cases (h : parts p = before ++ [n]) (hne : n ≠ []) (hdot : n ≠ [dot]) :
    before = [] ∧ slash ∉ p ∧ directory p = [dot] ∨
    ∃ d, parts d = before ∧ p = d ++ slash :: n ∧ directory p = trimEnd (d ++ [slash]) := by
  obtain ⟨hslash, ⟨hbefore, rfl⟩ | ⟨d, hd, rfl⟩⟩ := exists_of_parts h
  · exact Or.inl ⟨hbefore, hslash, directory_append_name (Or.inl rfl) hne hdot hslash⟩
  · have hdirectory := directory_append_name (Or.inr ⟨d, rfl⟩) hne hdot hslash
    rw [List.append_assoc, List.singleton_append, if_neg (by simp)] at hdirectory
    exact Or.inr ⟨d, hd, rfl, hdirectory⟩

/-- The way of the directory's path and the way that a move takes are the same up to their ends. -/
theorem trimEnd_directory (h : parts p = before ++ [n]) (hne : n ≠ []) (hdot : n ≠ [dot]) :
    Component.trimEnd (Component.ofPath (directory p)) = Component.trimEnd (Component.ofParts before) := by
  rcases directory_cases h hne hdot with ⟨rfl, -, hdirectory⟩ | ⟨d, rfl, -, hdirectory⟩
  · rw [hdirectory]
    rfl
  · rw [hdirectory, Component.ofPath, Component.trimEnd_ofParts, trimEnd_named, parts_snoc_slash,
      Component.named_append, Component.trimEnd_ofParts]
    simp [Component.named]

theorem isAbsolute_append (y : Path) (h : x ≠ []) : isAbsolute (x ++ y) = isAbsolute x := by
  cases x with
  | nil => exact absurd rfl h
  | cons b r => rfl

theorem isAbsolute_of_name (h : slash ∉ p) : isAbsolute p = false := by
  cases p with
  | nil => rfl
  | cons b r =>
    rw [List.mem_cons, not_or] at h
    exact beq_eq_false_iff_ne.2 (Ne.symm h.1)

theorem isAbsolute_directory (h : parts p = before ++ [n]) (hne : n ≠ []) (hdot : n ≠ [dot]) :
    isAbsolute (directory p) = isAbsolute p := by
  rcases directory_cases h hne hdot with ⟨-, hslash, hdirectory⟩ | ⟨d, -, rfl, hdirectory⟩
  · rw [hdirectory, isAbsolute_of_name hslash]
    rfl
  · obtain ⟨r, hr⟩ := isPrefix_trimEnd (d ++ [slash])
    have hall : d ++ slash :: n = trimEnd (d ++ [slash]) ++ (r ++ n) := by
      rw [← List.append_assoc, hr, List.append_assoc, List.singleton_append]
    rw [hdirectory, hall, isAbsolute_append _ (trimEnd_ne_nil (by simp))]

end Path

namespace Files

variable {fs : Files} {follow : Bool} {links k : Nat} {at_ d d' p cwd : Place} {cs ds : List Component} {n : Name}
  {path : Path} {before : List Bytes}

theorem checkPath_eq_ok_iff {p : Path} : checkPath p = .ok () ↔ 0 ∉ p ∧ p ≠ [] ∧ p.length ≤ maxPath := by
  unfold checkPath
  split_ifs with hzero hnil hlong
  · simp_all
  · simp_all
  · simp_all
  · simp_all

theorem checkPath_directory (h : Path.parts path = before ++ [n]) (hne : n ≠ []) (hdot : n ≠ [Path.dot])
    (hpath : checkPath path = .ok ()) : checkPath (Path.directory path) = .ok () := by
  rcases Path.directory_cases h hne hdot with ⟨-, -, hdirectory⟩ | ⟨d, -, rfl, hdirectory⟩
  · rw [hdirectory]
    rfl
  · have hbegins : Path.trimEnd (d ++ [Path.slash]) <+: d ++ Path.slash :: n := by
      refine (Path.isPrefix_trimEnd _).trans ⟨n, ?_⟩
      rw [List.append_assoc, List.singleton_append]
    obtain ⟨hzero, -, hlength⟩ := checkPath_eq_ok_iff.1 hpath
    rw [hdirectory, checkPath_eq_ok_iff]
    exact ⟨fun hmem => hzero (hbegins.subset hmem), Path.trimEnd_ne_nil (by simp),
      hbegins.length_le.trans hlength⟩

/-! ## Walks, part by part -/

theorem walk_free (hp : fs.get? p = none) (hds : ds ≠ []) : fs.walk follow k p ds = .error .notFound := by
  have hmode : fs.directoryMode p = .error .notFound := by rw [directoryMode, hp]
  have henter : fs.enter p = .error .notFound := by rw [enter, hmode]
  cases ds with
  | nil => exact absurd rfl hds
  | cons c ds =>
    cases c with
    | directory => rw [walk, hmode]
    | here | up | name => rw [walk, henter]

/-- A walk goes on from where its first part came to. -/
theorem exists_walk_append (fs : Files) (links : Nat) (at_ : Place) (cs : List Component) :
    ∃ k, ∀ follow ds, ds ≠ [] →
      fs.walk follow links at_ (cs ++ ds) = (fs.walk true links at_ cs).bind fun d => fs.walk follow k d ds := by
  fun_induction walk fs true links at_ cs with
  | case1 links at_ => exact ⟨links, fun follow ds hds => rfl⟩
  | case2 links at_ r e he | case4 links at_ r e he | case6 links at_ r e he | case8 links at_ n r e he =>
    refine ⟨0, fun follow ds hds => ?_⟩
    rw [List.cons_append, walk, he]
    rfl
  | case3 links at_ r m hm ih =>
    obtain ⟨k, hk⟩ := ih
    refine ⟨k, fun follow ds hds => ?_⟩
    rw [List.cons_append, walk, hm]
    exact hk follow ds hds
  | case5 links at_ r u hu ih | case7 links at_ r u hu ih =>
    obtain ⟨k, hk⟩ := ih
    refine ⟨k, fun follow ds hds => ?_⟩
    rw [List.cons_append, walk, hu]
    exact hk follow ds hds
  | case9 links at_ n r u hu hn =>
    refine ⟨0, fun follow ds hds => ?_⟩
    rw [List.cons_append, walk, hu]
    simp only [if_pos hn]
    rfl
  -- Behind a name that nothing has, nothing is found.
  | case10 links at_ n u hu hn hp =>
    refine ⟨links, fun follow ds hds => ?_⟩
    rw [List.cons_append, walk, hu]
    simp only [if_neg hn, hp, List.nil_append, if_neg hds]
    exact (walk_free hp hds).symm
  | case11 links at_ n r u hu hn hp hr =>
    refine ⟨0, fun follow ds hds => ?_⟩
    rw [List.cons_append, walk, hu]
    simp only [if_neg hn, hp, List.append_eq_nil_iff, hr, false_and, if_false]
    rfl
  | case12 links at_ n r u hu hn target hp hr => exact absurd hr.2 (by decide)
  | case13 at_ n r u hu hn target hp hr =>
    refine ⟨0, fun follow ds hds => ?_⟩
    rw [List.cons_append, walk, hu]
    simp only [if_neg hn, hp, List.append_eq_nil_iff, hds, and_false, false_and, if_false]
    rfl
  | case14 at_ n r u hu hn target hp hr links ih =>
    obtain ⟨k, hk⟩ := ih
    refine ⟨k, fun follow ds hds => ?_⟩
    rw [List.cons_append, walk, hu]
    simp only [if_neg hn, hp, List.append_eq_nil_iff, hds, and_false, false_and, if_false, ← List.append_assoc]
    exact hk follow ds hds
  | case15 links at_ n r u hu hn v hv hp ih =>
    obtain ⟨k, hk⟩ := ih
    refine ⟨k, fun follow ds hds => ?_⟩
    rw [List.cons_append, walk, hu]
    simp only [if_neg hn, hp]
    cases v with
    | link target => exact absurd rfl (hv target)
    | file | dir => exact hk follow ds hds

theorem walk_idle (hds : ∀ c ∈ ds, c.isIdle = true) (hd : fs.enter d = .ok ()) : fs.walk follow k d ds = .ok d := by
  obtain ⟨m, hm⟩ : ∃ m, fs.directoryMode d = .ok m := by
    unfold enter at hd
    split at hd
    · cases hd
    · exact ⟨_, ‹_›⟩
  induction ds with
  | nil => exact walk_nil
  | cons c ds ih =>
    rw [List.forall_mem_cons] at hds
    cases c with
    | directory =>
      rw [walk, hm]
      exact ih hds.2
    | here =>
      rw [walk, hd]
      exact ih hds.2
    | up | name => cases hds.1

theorem eq_of_walk_idle (hds : ∀ c ∈ ds, c.isIdle = true) (h : fs.walk follow k d' ds = .ok d) : d' = d := by
  induction ds with
  | nil =>
    rw [walk] at h
    cases h
    rfl
  | cons c ds ih =>
    rw [List.forall_mem_cons] at hds
    cases c with
    | directory | here =>
      rw [walk] at h
      split at h
      · cases h
      · exact ih hds.2 h
    | up | name => cases hds.1

/-- Idle components at the end of a way make no difference to a way that ends in a directory. -/
theorem walk_trimEnd (hd : fs.enter d = .ok ()) :
    fs.walk true links at_ (Component.trimEnd cs) = .ok d ↔ fs.walk true links at_ cs = .ok d := by
  obtain ⟨ds, hcs, hidle⟩ := Component.exists_trimEnd cs
  by_cases hds : ds = []
  · rw [hds, List.append_nil] at hcs
    rw [← hcs]
  · obtain ⟨k, hk⟩ := exists_walk_append fs links at_ (Component.trimEnd cs)
    conv_rhs => rw [hcs, hk true ds hds]
    constructor
    · intro h
      rw [h]
      exact walk_idle hidle hd
    · intro h
      cases hw : fs.walk true links at_ (Component.trimEnd cs) with
      | error e =>
        rw [hw] at h
        cases h
      | ok d' =>
        rw [hw] at h
        rw [eq_of_walk_idle hidle h]

/-- A name in a directory is an entry of it, whatever this is. -/
theorem walk_entry (hd : fs.enter d = .ok ()) :
    fs.walk false k d [.name n] = if n.length ≤ maxName then .ok (n :: d) else .error .nameTooLong := by
  rw [walk, hd]
  by_cases hn : n.length ≤ maxName
  · simp only [if_neg (Nat.not_lt.2 hn), if_pos hn]
    cases hv : fs.get? (n :: d) with
    | none => rfl
    | some v =>
      cases v with
      | link => rfl
      | file | dir => exact walk_nil
  · simp only [if_pos (Nat.not_le.1 hn), if_neg hn]

/-! ## Entries and their directories -/

theorem LastName.parts (h : LastName path before n) : Path.parts path = before ++ [n] ∧ n ≠ [] ∧ n ≠ [Path.dot] := by
  obtain ⟨hparts, hne⟩ := parts_of_splitLast h.split
  refine ⟨hparts, hne, fun e => ?_⟩
  have hname := h.name
  rw [e] at hname
  cases hname

theorem startOf_directory (h : LastName path before n) (base : Place) :
    startOf (Path.directory path) base = startOf path base := by
  obtain ⟨hparts, hne, hdot⟩ := h.parts
  rw [startOf, startOf, Path.isAbsolute_directory hparts hne hdot]

/-- The directory's path leads to a directory exactly if the parts before the last one do. -/
theorem resolve_directory_iff (h : LastName path before n) (hd : fs.enter d = .ok ()) :
    fs.resolve cwd true (Path.directory path) = .ok d ↔
      fs.walk true maxLinks (startOf path cwd) (Component.ofParts before) = .ok d := by
  obtain ⟨hparts, hne, hdot⟩ := h.parts
  rw [resolve, checkPath_directory hparts hne hdot h.valid]
  dsimp only
  rw [startOf_directory h, ← walk_trimEnd hd, Path.trimEnd_directory hparts hne hdot, walk_trimEnd hd]

/-- The entry of a path is its last name in the directory of its path. -/
theorem moveTarget_iff : fs.moveTarget cwd path = .ok p ↔ ∃ before n d, LastName path before n ∧
    fs.resolve cwd true (Path.directory path) = .ok d ∧ fs.enter d = .ok () ∧ p = n :: d := by
  rw [moveTarget_eq_ok_iff]
  constructor
  · rintro ⟨before, n, d, hlast, hw, hd, hp⟩
    exact ⟨before, n, d, hlast, (resolve_directory_iff hlast hd).2 hw, hd, hp⟩
  · rintro ⟨before, n, d, hlast, hr, hd, hp⟩
    exact ⟨before, n, d, hlast, (resolve_directory_iff hlast hd).1 hr, hd, hp⟩

/-- The parts before the last one, as a way that a name can be put behind. -/
theorem walk_named (hd : fs.enter d = .ok ()) (hw : fs.walk true links at_ (Component.ofParts before) = .ok d) :
    fs.walk true links at_ (Component.named before) = .ok d := by
  rwa [← walk_trimEnd hd, ← Component.trimEnd_ofParts, walk_trimEnd hd]

theorem ofParts_snoc (hne : n ≠ []) (hn : Component.ofPart n = .name n) :
    Component.ofParts (before ++ [n]) = Component.named before ++ [.name n] := by
  rw [Component.ofParts_eq, Component.named_append]
  simp [Component.named, hne, hn]

theorem exists_walk_of_moveTarget (h : fs.moveTarget cwd path = .ok (n :: d)) : n.length ≤ maxName ∧
    fs.enter d = .ok () ∧ ∃ k, ∀ follow, fs.resolve cwd follow path = fs.walk follow k d [.name n] := by
  obtain ⟨before, _, _, hlast, hw, hd, hp⟩ := moveTarget_eq_ok_iff.1 h
  cases hp
  obtain ⟨hparts, hne, -⟩ := hlast.parts
  obtain ⟨k, hk⟩ := exists_walk_append fs maxLinks (startOf path cwd) (Component.named before)
  refine ⟨hlast.short, hd, k, fun follow => ?_⟩
  rw [resolve, hlast.valid]
  dsimp only
  rw [Component.ofPath, hparts, ofParts_snoc hne hlast.name, hk follow _ (List.cons_ne_nil _ _), walk_named hd hw]
  rfl

/-- The entry is what the path leads to if a link at its end is not followed. -/
theorem resolve_of_moveTarget (h : fs.moveTarget cwd path = .ok p) : fs.resolve cwd false path = .ok p := by
  obtain ⟨n, d, rfl, -⟩ := moveTarget_name h
  obtain ⟨hshort, hd, k, hk⟩ := exists_walk_of_moveTarget h
  rw [hk, walk_entry hd, if_pos hshort]

/-- If the entry is a file, the path leads to it. -/
theorem resolve_of_leaf (h : fs.moveTarget cwd path = .ok p) (hl : isLeaf (fs.get? p) = true) :
    fs.resolve cwd true path = .ok p := by
  obtain ⟨n, d, rfl, -⟩ := moveTarget_name h
  obtain ⟨hshort, hd, k, hk⟩ := exists_walk_of_moveTarget h
  rw [hk, walk_last hd (Nat.not_lt.2 hshort) hl]

/-- An entry of the directory that a path leads to. -/
theorem resolve_inDirectory_iff (hr : fs.resolve cwd true path = .ok d) (hd : fs.enter d = .ok ()) (hslash : Path.slash ∉ n)
    (hne : n ≠ []) (hn : Component.ofPart n = .name n) : fs.resolve cwd false (inDirectory path n) = .ok p ↔
      checkPath (inDirectory path n) = .ok () ∧ n.length ≤ maxName ∧ p = n :: d := by
  unfold resolve at hr
  split at hr
  · cases hr
  · rename_i hvalid
    obtain ⟨-, hpath, -⟩ := checkPath_eq_ok_iff.1 hvalid
    have hparts : Path.parts (inDirectory path n) = Path.parts path ++ [n] := by
      rw [inDirectory, Path.parts_append, Path.parts_of_name hslash]
    have hstart : startOf (inDirectory path n) cwd = startOf path cwd := by
      rw [startOf, startOf, inDirectory, Path.isAbsolute_append _ hpath]
    unfold resolve
    cases checkPath (inDirectory path n) with
    | error e => simp
    | ok u =>
      dsimp only
      obtain ⟨k, hk⟩ := exists_walk_append fs maxLinks (startOf path cwd) (Component.named (Path.parts path))
      rw [hstart, Component.ofPath, hparts, ofParts_snoc hne hn, hk false _ (List.cons_ne_nil _ _), walk_named hd hr]
      change fs.walk false k d [.name n] = .ok p ↔ _
      rw [walk_entry hd]
      split_ifs with hshort
      · simp [hshort, eq_comm]
      · simp [hshort]

/-! ## Entries that are replaced -/

variable {a b : Files}

/-- A change of the entry alone leaves the path's entry where it is, unless the way to its
    directory comes through it. -/
theorem moveTarget_of_trail (h : a.moveTarget cwd path = .ok p) (hway : p ∉ a.trailOf cwd (Path.directory path))
    (hsame : ∀ q, q ≠ p → b.get? q = a.get? q) : b.moveTarget cwd path = .ok p := by
  obtain ⟨before, n, d, hlast, hr, hd, rfl⟩ := moveTarget_iff.1 h
  have htrail : ∀ q ∈ a.trailOf cwd (Path.directory path), b.get? q = a.get? q :=
    fun q hq => hsame q fun e => hway (e ▸ hq)
  have hne : d ≠ n :: d := fun e => absurd (congrArg List.length e) (by simp)
  refine moveTarget_iff.2 ⟨before, n, d, hlast, ?_, ?_, rfl⟩
  · rw [resolve_of_trail htrail, hr]
  · rw [enter_congr (hsame d hne), hd]

/-- A file that was put there is then what the path leads to. -/
theorem resolve_put_of_trail {m : Mode} {c : Bytes} (h : a.moveTarget cwd path = .ok p)
    (hway : p ∉ a.trailOf cwd (Path.directory path)) : (a.put p (.file m c)).resolve cwd true path = .ok p := by
  have hget : ∀ q, (a.put p (.file m c)).get? q = if q = p then some (.file m c) else a.get? q :=
    fun q => get?_put (moveTarget_ne_nil h)
  have hentry := moveTarget_of_trail h hway fun q hq => by rw [hget, if_neg hq]
  exact resolve_of_leaf hentry (by rw [hget, if_pos rfl]; rfl)

theorem SameWays.trail_eq (h : SameWays a b) : b.trail links at_ cs = a.trail links at_ cs := by
  fun_induction trail a links at_ cs with
  | case1 => rw [trail]
  | case2 _ _ _ ih | case3 _ _ _ ih => rw [trail, ih]
  | case4 _ _ _ ih => rw [trail, ih]
  | case5 at_ n r target hlink =>
    have hname := (h (n :: at_)).resolve_right fun hl => by simp [hlink, isLeaf] at hl
    rw [trail, ← hname, hlink]
  | case6 at_ n r target hlink links ih =>
    have hname := (h (n :: at_)).resolve_right fun hl => by simp [hlink, isLeaf] at hl
    rw [trail, ← hname, hlink]
    simp only [ih]
  | case7 links at_ n r hlink ih =>
    have hnone : ∀ target, b.get? (n :: at_) ≠ some (.link target) := by
      intro target hb
      rcases h (n :: at_) with he | ⟨-, hl⟩
      · exact hlink target (he.trans hb)
      · simp [hb, isLeaf] at hl
    rw [trail]
    split
    · exact absurd ‹_› (hnone _)
    · rw [ih]

end Files

end IconMaker
