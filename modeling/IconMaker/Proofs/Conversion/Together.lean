import IconMaker.Proofs.Conversion.Failure
import IconMaker.Proofs.Conversion.Temporary
import IconMaker.Proofs.FileSystem.Names
import Mathlib.Data.List.Induction
import Mathlib.Logic.Function.Basic

/-
  IconMaker.Proofs.Conversion.Together — conversions that run at the same time.

  Any number of conversions share their files. An action lets one of them take one step, under
  whatever circumstance, or kills it; a killed conversion takes no more steps. There is no
  order among the conversions but that of the list of actions.

  Proved, for files without links and outputs that are not named like temporary files
  (`outputs_are_whole`):
  (1) what is at an output is what was there at the start, or the whole icon of a conversion
      with this output (`Inv.outputs`);
  (2) a conversion that ends well had its own whole icon at its output right after its move
      (`exists_move`).
  What carries both is that no two conversions have the same temporary file and that no
  output is a temporary file (`Inv.apart`, `target_not_temporary`).
-/

namespace IconMaker

namespace Files

/-- What the file in a place holds. -/
def content? (fs : Files) (p : Place) : Option Bytes :=
  match fs.get? p with
  | some (.file _ c) => some c
  | _ => none

/-- What the file holds that is the entry of a path. -/
def contentAt (fs : Files) (cwd : Place) (path : Path) : Option Bytes :=
  match fs.moveTarget cwd path with
  | .ok p => fs.content? p
  | .error _ => none

theorem content?_eq {a b : Files} {p : Place} (h : a.get? p = b.get? p) : a.content? p = b.content? p := by
  unfold content?
  rw [h]

theorem isLeaf_file {files : Files} {t : Place} {m : Mode} {c : Bytes} (h : files.get? t = some (.file m c)) :
    isLeaf (files.get? t) = true := by
  rw [h]; rfl

/-- Neither a directory nor a link. -/
theorem isLeaf_of_ways {fs files : Files} (hlinks : ∀ p t, fs.get? p ≠ some (.link t)) (hways : fs.SameWays files)
    {p : Place} (hdir : ∀ m, files.get? p ≠ some (.dir m)) : isLeaf (files.get? p) = true := by
  rcases hways p with e | ⟨_, hl⟩
  · cases hp : files.get? p with
    | none => rfl
    | some v =>
      cases v with
      | file => rfl
      | dir m => exact absurd hp (hdir m)
      | link t => exact absurd (e.trans hp) (hlinks p t)
  · exact hl

end Files

namespace Conversion

/-- A conversion that is to be done. -/
structure Task where
  job : Job
  caller : Caller

namespace Task

variable (k : Task)

def target (fs : Files) : Except IoError Place := fs.moveTarget k.caller.cwd k.job.output

def contentAtOutput (fs : Files) : Option Bytes := fs.contentAt k.caller.cwd k.job.output

/-- The icon that the conversion would make if it read its input now. -/
def icon? [Png.Writer] (fs : Files) : Option Bytes := iconOf k.job (fs.read k.caller.cwd k.job.input)

/-- What is at the output of a conversion, in terms of the place that its output had at the
    start. -/
theorem contentAtOutput_eq {fs files : Files} (h : fs.SameWays files) :
    k.contentAtOutput files = match k.target fs with
      | .ok p => files.content? p
      | .error _ => none := by
  unfold contentAtOutput target Files.contentAt
  cases hp : fs.moveTarget k.caller.cwd k.job.output with
  | ok p => rw [Files.moveTarget_eq h hp]
  | error e =>
    cases hq : files.moveTarget k.caller.cwd k.job.output with
    | error e' => rfl
    | ok q =>
      rw [Files.moveTarget_eq h.symm hq] at hp
      cases hp

end Task

/-! ## Names -/

def IsTemporary (p : Place) : Prop := ∃ n d, p = n :: d ∧ IsTemporaryName n

theorem isTemporary_of_makeFile {files files' : Files} {caller : Caller} {d : Path} {n : Name} {m : Mode} {t : Place}
    (hn : IsTemporaryName n) (h : files.makeFile caller d n m = .ok (t, files')) : IsTemporary t := by
  obtain ⟨d, rfl⟩ :=
    Files.makeFile_name (slash_not_mem_temporaryName hn) (ne_nil_of_temporaryName hn) (ofPart_temporaryName hn) h
  exact ⟨n, d, rfl, hn⟩

/-- The outputs are not named like temporary files. -/
def OutputsNamed {ι : Type} (tasks : ι → Task) : Prop :=
  ∀ i n, Path.fileName? (tasks i).job.output = some n → ¬ IsTemporaryName n

theorem target_not_temporary {ι : Type} {tasks : ι → Task} (hout : OutputsNamed tasks) {files : Files} {i : ι}
    {p : Place} (h : (tasks i).target files = .ok p) : ¬ IsTemporary p := by
  rintro ⟨n, d, rfl, hn⟩
  obtain ⟨n', d', e, hname⟩ := Files.moveTarget_name h
  cases e
  exact hout i n hname hn

/-! ## The conversions and their actions -/

structure World (ι : Type) where
  files : Files
  stage : ι → Stage
  /-- Not killed. -/
  alive : ι → Bool

inductive Action (ι : Type) where
  | step (i : ι) (c : Circumstance)
  | kill (i : ι)

/-- If the action makes a file, that is named like a temporary file. -/
def Action.NamesTemporary {ι : Type} : Action ι → Prop
  | .step _ c => IsTemporaryName c.name
  | .kill _ => True

section

variable [Png.Writer] {ι : Type} [DecidableEq ι] (tasks : ι → Task)

namespace World

def start (fs : Files) : World ι := ⟨fs, fun _ => .reading, fun _ => true⟩

def act (x : World ι) : Action ι → World ι
  | .kill i => { x with alive := Function.update x.alive i false }
  | .step i c =>
    if x.alive i then
      let y := advance (tasks i).job (tasks i).caller c x.files (x.stage i)
      { x with files := y.2, stage := Function.update x.stage i y.1 }
    else x

def after (fs : Files) (as : List (Action ι)) : World ι := as.foldl (act tasks) (start fs)

theorem after_snoc (fs : Files) (as : List (Action ι)) (a : Action ι) :
    after tasks fs (as ++ [a]) = (after tasks fs as).act tasks a := by
  simp [after]

end World

/-- In the course of the actions the conversion read its input, and this is the icon it makes
    of what it read. -/
def Made (fs : Files) (as : List (Action ι)) (i : ι) (icon : Bytes) : Prop :=
  ∃ before c rest, as = before ++ .step i c :: rest ∧ (World.after tasks fs before).stage i = .reading ∧
    c.failure = none ∧ (tasks i).icon? (World.after tasks fs before).files = some icon

theorem made_snoc {fs : Files} {as : List (Action ι)} {i : ι} {icon : Bytes} (h : Made tasks fs as i icon)
    (a : Action ι) : Made tasks fs (as ++ [a]) i icon := by
  obtain ⟨before, c, rest, rfl, hr⟩ := h
  exact ⟨before, c, rest ++ [a], by simp, hr⟩

/-! ## The invariant -/

/-- What a conversion's stage says of its temporary file. -/
def Progress (fs : Files) (as : List (Action ι)) (files : Files) (i : ι) : Stage → Prop
  | .reading | .finished _ => True
  | .examining frames | .asking frames | .creating frames _ =>
    ∀ icon, Icon.encode frames = some icon → Made tasks fs as i icon
  | .writing t rest =>
    ∃ m done icon, files.get? t = some (.file m done) ∧ done ++ rest = icon ∧ Made tasks fs as i icon
  | .syncing t | .measuring t => ∃ m icon, files.get? t = some (.file m icon) ∧ Made tasks fs as i icon
  | .moving t n => ∃ m icon, files.get? t = some (.file m icon) ∧ Made tasks fs as i icon ∧ n = icon.length
  | .discarding t _ => ∃ m c, files.get? t = some (.file m c)

structure Inv (fs : Files) (as : List (Action ι)) (x : World ι) : Prop where
  ways : fs.SameWays x.files
  progress : ∀ i, Progress tasks fs as x.files i (x.stage i)
  temporary : ∀ i t, (x.stage i).temporary? = some t → IsTemporary t
  apart : ∀ i j t, (x.stage i).temporary? = some t → (x.stage j).temporary? = some t → i = j
  outputs : ∀ i p, (tasks i).target fs = .ok p → x.files.content? p = fs.content? p ∨
    ∃ j icon, (tasks j).target fs = .ok p ∧ Made tasks fs as j icon ∧ x.files.content? p = some icon

variable {tasks} {fs : Files} {as : List (Action ι)} {x : World ι}

theorem inv_start : Inv tasks fs [] (World.start fs) where
  ways := .refl fs
  progress := fun _ => trivial
  temporary := fun _ _ h => by cases h
  apart := fun _ _ _ h => by cases h
  outputs := fun _ _ _ => Or.inl rfl

/-- The file of a stage that has one is there. -/
theorem file_of_temporary {files : Files} {i : ι} {s : Stage} {t : Place} (h : Progress tasks fs as files i s)
    (ht : s.temporary? = some t) : ∃ m c, files.get? t = some (.file m c) := by
  cases s with
  | writing =>
    cases ht
    obtain ⟨m, done, _, hf, _⟩ := h
    exact ⟨m, done, hf⟩
  | syncing | measuring | moving =>
    cases ht
    obtain ⟨m, icon, hf, _⟩ := h
    exact ⟨m, icon, hf⟩
  | discarding =>
    cases ht
    exact h
  | _ => cases ht

/-- A conversion's progress lasts through all that leaves its temporary file alone. -/
theorem progress_snoc {files files' : Files} {i : ι} {s : Stage} (a : Action ι)
    (hf : ∀ t, s.temporary? = some t → files'.get? t = files.get? t) (h : Progress tasks fs as files i s) :
    Progress tasks fs (as ++ [a]) files' i s := by
  cases s with
  | reading | finished => trivial
  | examining | asking | creating => exact fun icon he => made_snoc tasks (h icon he) a
  | writing t rest =>
    obtain ⟨m, done, icon, hg, hd, hm⟩ := h
    exact ⟨m, done, icon, (hf t rfl).trans hg, hd, made_snoc tasks hm a⟩
  | syncing t | measuring t =>
    obtain ⟨m, icon, hg, hm⟩ := h
    exact ⟨m, icon, (hf t rfl).trans hg, made_snoc tasks hm a⟩
  | moving t n =>
    obtain ⟨m, icon, hg, hm, hn⟩ := h
    exact ⟨m, icon, (hf t rfl).trans hg, made_snoc tasks hm a, hn⟩
  | discarding t e =>
    obtain ⟨m, c, hg⟩ := h
    exact ⟨m, c, (hf t rfl).trans hg⟩

/-- Nothing happens, but that some conversions may be killed. -/
theorem inv_snoc (h : Inv tasks fs as x) (a : Action ι) (alive : ι → Bool) :
    Inv tasks fs (as ++ [a]) { x with alive := alive } where
  ways := h.ways
  progress := fun i => progress_snoc a (fun _ _ => rfl) (h.progress i)
  temporary := h.temporary
  apart := h.apart
  outputs := by
    intro i p hp
    rcases h.outputs i p hp with e | ⟨j, icon, hj, hm, hc⟩
    · exact Or.inl e
    · exact Or.inr ⟨j, icon, hj, made_snoc tasks hm a, hc⟩

/-! ## One step -/

variable (tasks) in
/-- A step of one conversion keeps the invariant if it leaves the temporary files of the others
    alone and puts nothing but a whole icon at an output. -/
theorem inv_of_step (h : Inv tasks fs as x) (i : ι) (a : Action ι) {s : Stage} {files : Files}
    (hways : x.files.SameWays files)
    (hothers : ∀ j t, j ≠ i → (x.stage j).temporary? = some t → files.get? t = x.files.get? t)
    (hprogress : Progress tasks fs (as ++ [a]) files i s)
    (htemporary : ∀ t, s.temporary? = some t → IsTemporary t ∧ ∀ j, j ≠ i → (x.stage j).temporary? ≠ some t)
    (houtputs : ∀ k p, (tasks k).target fs = .ok p → files.content? p = x.files.content? p ∨
      (tasks i).target fs = .ok p ∧ ∃ icon, Made tasks fs as i icon ∧ files.content? p = some icon) :
    Inv tasks fs (as ++ [a]) { x with files := files, stage := Function.update x.stage i s } where
  ways := h.ways.trans hways
  progress := by
    intro j
    by_cases e : j = i
    · subst e
      simpa using hprogress
    · simp only [Function.update_of_ne e]
      exact progress_snoc a (hothers j · e) (h.progress j)
  temporary := by
    intro j t ht
    by_cases e : j = i
    · subst e
      exact (htemporary t (by simpa using ht)).1
    · exact h.temporary j t (by simpa [Function.update_of_ne e] using ht)
  apart := by
    intro j k t hj hk
    by_cases ej : j = i <;> by_cases ek : k = i
    · exact ej.trans ek.symm
    · subst ej
      simp only [Function.update_self, Function.update_of_ne ek] at hj hk
      exact absurd hk ((htemporary t hj).2 k ek)
    · subst ek
      simp only [Function.update_self, Function.update_of_ne ej] at hj hk
      exact absurd hj ((htemporary t hk).2 j ej)
    · simp only [Function.update_of_ne ej, Function.update_of_ne ek] at hj hk
      exact h.apart j k t hj hk
  outputs := by
    intro k p hp
    rcases houtputs k p hp with e | ⟨hi, icon, hm, hc⟩
    · rcases h.outputs k p hp with e' | ⟨j, icon, hj, hm, hc⟩
      · exact Or.inl (e.trans e')
      · exact Or.inr ⟨j, icon, hj, made_snoc tasks hm a, e.trans hc⟩
    · exact Or.inr ⟨i, icon, hi, made_snoc tasks hm a, hc⟩

/-- A change in the place of one conversion's temporary file, from a leaf to a leaf. -/
theorem inv_of_temporary (hout : OutputsNamed tasks) (h : Inv tasks fs as x) (i : ι) (a : Action ι) {s : Stage}
    {files : Files} {t : Place} (hleaf : Files.isLeaf (x.files.get? t) = true) (hleaf' : Files.isLeaf (files.get? t) = true)
    (hsame : ∀ p, p ≠ t → files.get? p = x.files.get? p) (ht : IsTemporary t)
    (hown : ∀ j, j ≠ i → (x.stage j).temporary? ≠ some t)
    (hprogress : Progress tasks fs (as ++ [a]) files i s) (hs : ∀ t', s.temporary? = some t' → t' = t) :
    Inv tasks fs (as ++ [a]) { x with files := files, stage := Function.update x.stage i s } := by
  refine inv_of_step tasks h i a (.of_leaf hleaf hleaf' hsame) ?_ hprogress ?_ ?_
  · intro j t' hj ht'
    exact hsame t' fun e => hown j hj (e ▸ ht')
  · intro t' ht'
    rw [hs t' ht']
    exact ⟨ht, hown⟩
  · intro k p hp
    exact Or.inl (Files.content?_eq (hsame p fun e => target_not_temporary hout hp (e ▸ ht)))

/-- No change of the files. -/
theorem inv_of_same (h : Inv tasks fs as x) (i : ι) (a : Action ι) {s : Stage}
    (hprogress : Progress tasks fs (as ++ [a]) x.files i s)
    (hs : ∀ t, s.temporary? = some t → (x.stage i).temporary? = some t) :
    Inv tasks fs (as ++ [a]) { x with stage := Function.update x.stage i s } := by
  refine inv_of_step tasks h i a (.refl _) (fun _ _ _ _ => rfl) hprogress ?_ (fun _ _ _ => Or.inl rfl)
  intro t ht
  refine ⟨h.temporary i t (hs t ht), fun j hj ht' => hj ?_⟩
  exact h.apart j i t ht' (hs t ht)

/-- What a move does: the icon is at the output, the temporary file is gone, and nothing else
    has changed. -/
theorem move_effect (hout : OutputsNamed tasks) (h : Inv tasks fs as x) {i : ι} {t : Place} {n : Nat} {files : Files}
    (hstage : x.stage i = .moving t n)
    (hm : x.files.move (tasks i).caller.cwd t (tasks i).job.output = .ok files) :
    ∃ target m icon, (tasks i).target fs = .ok target ∧ (∀ m', x.files.get? target ≠ some (.dir m')) ∧
      x.files.get? t = some (.file m icon) ∧ Made tasks fs as i icon ∧ n = icon.length ∧
      ∀ p, files.get? p = if p = target then some (.file m icon) else if p = t then none else x.files.get? p := by
  have ht : IsTemporary t := h.temporary i t (by rw [hstage]; rfl)
  have hp := h.progress i
  rw [hstage] at hp
  obtain ⟨m, icon, hfile, hmade, hn⟩ := hp
  obtain ⟨target, v, htarget, hv, hdir, hfiles⟩ := Files.move_eq hm
  rw [hfile, Option.some.injEq] at hv
  subst hv
  have hne : target ≠ t := fun e => target_not_temporary hout (i := i) htarget (e ▸ ht)
  rw [if_neg hne] at hfiles
  refine ⟨target, m, icon, Files.moveTarget_eq h.ways.symm htarget, hdir, hfile, hmade, hn, fun p => ?_⟩
  have htn : t ≠ [] := by
    obtain ⟨_, _, rfl, -⟩ := ht
    simp
  have htg : target ≠ [] := by
    obtain ⟨_, _, rfl, -⟩ := Files.moveTarget_name htarget
    simp
  rw [hfiles, Files.get?_put htg, Files.get?_erase htn]

/-- The file of one conversion takes the place of its output. -/
theorem inv_of_move (hout : OutputsNamed tasks) (hlinks : ∀ p t, fs.get? p ≠ some (.link t)) (h : Inv tasks fs as x)
    (i : ι) (a : Action ι) {t : Place} {n : Nat} {files : Files} (hstage : x.stage i = .moving t n)
    (hm : x.files.move (tasks i).caller.cwd t (tasks i).job.output = .ok files) :
    Inv tasks fs (as ++ [a]) { x with files := files, stage := Function.update x.stage i (.finished (.ok n)) } := by
  have ht : IsTemporary t := h.temporary i t (by rw [hstage]; rfl)
  obtain ⟨target, m, icon, htarget, hdir, hfile, hmade, -, hget⟩ := move_effect hout h hstage hm
  refine inv_of_step tasks h i a ?_ ?_ trivial (fun _ e => by cases e) ?_
  · intro p
    rw [hget]
    by_cases e : p = target
    · rw [if_pos e, e]
      exact Or.inr ⟨Files.isLeaf_of_ways hlinks h.ways hdir, rfl⟩
    · by_cases e' : p = t
      · rw [if_neg e, if_pos e', e']
        exact Or.inr ⟨Files.isLeaf_file hfile, rfl⟩
      · rw [if_neg e, if_neg e']
        exact Or.inl rfl
  · intro j t' hj ht'
    have h1 : t' ≠ target := fun e => target_not_temporary hout htarget (e ▸ h.temporary j t' ht')
    have h2 : t' ≠ t := fun e => hj (h.apart j i t' ht' (by rw [hstage, e]; rfl))
    rw [hget, if_neg h1, if_neg h2]
  · intro k p hp
    by_cases e : p = target
    · subst e
      refine Or.inr ⟨htarget, icon, hmade, ?_⟩
      unfold Files.content?
      rw [hget, if_pos rfl]
    · have hpt : p ≠ t := fun e' => target_not_temporary hout hp (e' ▸ ht)
      refine Or.inl (Files.content?_eq ?_)
      rw [hget, if_neg e, if_neg hpt]

/-- A temporary file is made. -/
theorem inv_of_makeFile (hout : OutputsNamed tasks) (h : Inv tasks fs as x) (i : ι) (a : Action ι) {s : Stage}
    {files : Files} {caller : Caller} {d : Path} {n : Name} {m : Mode} {t : Place} (hn : IsTemporaryName n)
    (hmake : x.files.makeFile caller d n m = .ok (t, files))
    (hprogress : ∀ m', files.get? t = some (.file m' []) → Progress tasks fs (as ++ [a]) files i s)
    (hs : ∀ t', s.temporary? = some t' → t' = t) :
    Inv tasks fs (as ++ [a]) { x with files := files, stage := Function.update x.stage i s } := by
  have ht := isTemporary_of_makeFile hn hmake
  obtain ⟨-, hfree, rfl⟩ := Files.makeFile_eq hmake
  have hget : ∀ {v p}, (x.files.insert t v).get? p = if p = t then some v else x.files.get? p :=
    Files.get?_insert (Files.ne_nil_of_free hfree)
  have hnew : ∀ {v}, (x.files.insert t v).get? t = some v := by
    intro v
    rw [hget, if_pos rfl]
  refine inv_of_temporary hout h i a (by rw [hfree]; rfl) (Files.isLeaf_file hnew) ?_ ht ?_ (hprogress _ hnew) hs
  · intro p hp
    rw [hget, if_neg hp]
  · intro j _ hj
    obtain ⟨m', c, hf⟩ := file_of_temporary (h.progress j) hj
    rw [hfree] at hf
    cases hf

/-- Something is appended to a temporary file. -/
theorem inv_of_append (hout : OutputsNamed tasks) (h : Inv tasks fs as x) (i : ι) (a : Action ι) {t : Place}
    {rest : Bytes} (n : Nat) (hstage : x.stage i = .writing t rest) :
    Inv tasks fs (as ++ [a]) { x with
      files := x.files.append t (rest.take n), stage := Function.update x.stage i (.writing t (rest.drop n)) } := by
  have ht := h.temporary i t (by rw [hstage]; rfl)
  have hp := h.progress i
  rw [hstage] at hp
  obtain ⟨m, done, icon, hfile, hdone, hmade⟩ := hp
  have htn : t ≠ [] := by
    obtain ⟨n, d, rfl, -⟩ := ht
    simp
  have hnew : (x.files.append t (rest.take n)).get? t = some (.file m.afterWrite (done ++ rest.take n)) := by
    rw [Files.get?_append hfile htn, if_pos rfl]
  refine inv_of_temporary hout h i a (Files.isLeaf_file hfile) (Files.isLeaf_file hnew) ?_ ht ?_ ?_ ?_
  · intro p hp
    rw [Files.get?_append hfile htn, if_neg hp]
  · intro j hj hj'
    exact hj (h.apart j i t hj' (by rw [hstage]; rfl))
  · exact ⟨_, _, icon, hnew, by rw [List.append_assoc, List.take_append_drop, hdone], made_snoc tasks hmade a⟩
  · intro t' e
    cases e
    rfl

/-- A temporary file is removed. -/
theorem inv_of_erase (hout : OutputsNamed tasks) (h : Inv tasks fs as x) (i : ι) (a : Action ι) {t : Place}
    {e : ConvertError} (hstage : x.stage i = .discarding t e) :
    Inv tasks fs (as ++ [a]) { x with
      files := x.files.erase t, stage := Function.update x.stage i (.finished (.error e)) } := by
  have ht := h.temporary i t (by rw [hstage]; rfl)
  have hp := h.progress i
  rw [hstage] at hp
  obtain ⟨m, c, hfile⟩ := hp
  have htn : t ≠ [] := by
    obtain ⟨n, d, rfl, -⟩ := ht
    simp
  refine inv_of_temporary hout h i a (Files.isLeaf_file hfile) ?_ ?_ ht ?_ trivial (fun t' e => by cases e)
  · rw [Files.get?_erase htn, if_pos rfl]; rfl
  · intro p hp
    rw [Files.get?_erase htn, if_neg hp]
  · intro j hj hj'
    exact hj (h.apart j i t hj' (by rw [hstage]; rfl))

theorem inv_step (hout : OutputsNamed tasks) (hlinks : ∀ p t, fs.get? p ≠ some (.link t))
    (h : Inv tasks fs as (World.after tasks fs as)) (i : ι) (c : Circumstance) (hc : IsTemporaryName c.name)
    {s : Stage} {files : Files}
    (hs : Step (tasks i).job (tasks i).caller c (World.after tasks fs as).files ((World.after tasks fs as).stage i) s files) :
    Inv tasks fs (as ++ [.step i c])
      { World.after tasks fs as with files := files, stage := Function.update (World.after tasks fs as).stage i s } := by
  have hp := h.progress i
  generalize hstage : (World.after tasks fs as).stage i = old at hs hp
  cases hs with
  | read hfail hprep =>
    refine inv_of_same h i _ (fun icon he => ?_) (fun t e => by cases e)
    exact ⟨as, c, [], rfl, hstage, hfail, (iconOf_eq hprep).trans he⟩
  | unread | refused | uncreated => exact inv_of_same h i _ trivial (fun t e => by cases e)
  | examined | asked =>
    exact inv_of_same h i _ (fun icon he => made_snoc tasks (hp icon he) _) (fun t e => by cases e)
  | created hmake he =>
    exact inv_of_makeFile hout h i _ hc hmake
      (fun m' hf => ⟨m', [], _, hf, rfl, made_snoc tasks (hp _ he) _⟩) (fun t' e => by cases e; rfl)
  | vain hmake _ =>
    exact inv_of_makeFile hout h i _ hc hmake (fun m' hf => ⟨m', [], hf⟩) (fun t' e => by cases e; rfl)
  | wrote _ _ => exact inv_of_append hout h i _ _ hstage
  | written =>
    obtain ⟨m, done, icon, hfile, hdone, hmade⟩ := hp
    rw [List.append_nil] at hdone
    refine inv_of_same h i _ ⟨m, icon, hdone ▸ hfile, made_snoc tasks hmade _⟩ (fun t e => ?_)
    cases e
    rw [hstage]; rfl
  | synced =>
    obtain ⟨m, icon, hfile, hmade⟩ := hp
    refine inv_of_same h i _ ⟨m, icon, hfile, made_snoc tasks hmade _⟩ (fun t e => ?_)
    cases e
    rw [hstage]; rfl
  | measured =>
    obtain ⟨m, icon, hfile, hmade⟩ := hp
    refine inv_of_same h i _ ⟨m, icon, hfile, made_snoc tasks hmade _, ?_⟩ (fun t e => ?_)
    · simp [Files.fileSize, hfile]
    · cases e
      rw [hstage]; rfl
  | moved hm => exact inv_of_move hout hlinks h i _ hstage hm
  | failed ht _ =>
    refine inv_of_same h i _ (file_of_temporary hp ht) (fun t e => ?_)
    cases e
    rw [hstage, ht]
  | discarded => exact inv_of_erase hout h i _ hstage
  | stayed => exact inv_of_same h i _ trivial (fun t e => by cases e)

/-! ## All actions -/

theorem inv_after (hout : OutputsNamed tasks) (hlinks : ∀ p t, fs.get? p ≠ some (.link t))
    (has : ∀ a ∈ as, a.NamesTemporary) : Inv tasks fs as (World.after tasks fs as) := by
  induction as using List.reverseRecOn with
  | nil => exact inv_start
  | append_singleton as a ih =>
    have h := ih fun b hb => has b (List.mem_append_left _ hb)
    rw [World.after_snoc]
    cases a with
    | kill i => exact inv_snoc h _ _
    | step i c =>
      simp only [World.act]
      split
      · exact inv_step hout hlinks h i c (has (.step i c) (by simp)) (step_advance ..)
      · exact inv_snoc h _ _

/-- Only a move ends a conversion well. -/
theorem step_ok {k : Task} {c : Circumstance} {files files' : Files} {s : Stage} {n : Nat}
    (h : Step k.job k.caller c files s (.finished (.ok n)) files') (hs : s ≠ .finished (.ok n)) :
    ∃ t, s = .moving t n ∧ files.move k.caller.cwd t k.job.output = .ok files' := by
  cases h with
  | moved hm => exact ⟨_, rfl, hm⟩
  | stayed => exact absurd rfl hs

/-- A conversion that has ended well moved its icon at some time, and right after that the
    icon was at its output. -/
theorem exists_move (hout : OutputsNamed tasks) (hlinks : ∀ p t, fs.get? p ≠ some (.link t))
    (has : ∀ a ∈ as, a.NamesTemporary) {i : ι} {n : Nat}
    (hi : (World.after tasks fs as).stage i = .finished (.ok n)) :
    ∃ before c rest t icon, as = before ++ .step i c :: rest ∧
      (World.after tasks fs before).stage i = .moving t n ∧ Made tasks fs before i icon ∧ n = icon.length ∧
      (tasks i).contentAtOutput (World.after tasks fs (before ++ [.step i c])).files = some icon := by
  induction as using List.reverseRecOn with
  | nil => cases hi
  | append_singleton as a ih =>
    have has' : ∀ b ∈ as, b.NamesTemporary := fun b hb => has b (List.mem_append_left _ hb)
    by_cases hbefore : (World.after tasks fs as).stage i = .finished (.ok n)
    · obtain ⟨before, c, rest, t, icon, rfl, h⟩ := ih has' hbefore
      exact ⟨before, c, rest ++ [a], t, icon, by simp, h⟩
    have h := inv_after hout hlinks has'
    have hnext := inv_after hout hlinks has
    rw [World.after_snoc] at hi hnext
    cases a with
    | kill j => exact absurd hi hbefore
    | step j c =>
      simp only [World.act] at hi hnext
      split at hi
      · rename_i halive
        rw [if_pos halive] at hnext
        by_cases e : i = j
        · subst e
          simp only [Function.update_self] at hi
          have hs := step_advance (tasks i).job (tasks i).caller c (World.after tasks fs as).files
            ((World.after tasks fs as).stage i)
          rw [hi] at hs
          obtain ⟨t, hstage, hm⟩ := step_ok hs hbefore
          obtain ⟨target, m, icon, htarget, -, -, hmade, hn, hget⟩ := move_effect hout h hstage hm
          refine ⟨as, c, [], t, icon, rfl, hstage, hmade, hn, ?_⟩
          rw [World.after_snoc]
          simp only [World.act, if_pos halive]
          rw [Task.contentAtOutput_eq _ hnext.ways, htarget]
          simp only [Files.content?, hget, if_pos]
        · simp only [Function.update_of_ne e] at hi
          exact absurd hi hbefore
      · exact absurd hi hbefore

/-- At any time, after any actions of any conversions: what is at an output is what was there
    at the start, or the whole icon that a conversion with this output made of what it had
    read; and every conversion that has ended well put its own whole icon there. -/
theorem outputs_are_whole (tasks : ι → Task) (fs : Files) (as : List (Action ι))
    (hlinks : ∀ p t, fs.get? p ≠ some (.link t))
    (hout : ∀ i n, Path.fileName? (tasks i).job.output = some n → ¬ IsTemporaryName n)
    (has : ∀ a ∈ as, a.NamesTemporary) :
    (∀ i, (tasks i).contentAtOutput (World.after tasks fs as).files = (tasks i).contentAtOutput fs ∨
      ∃ j icon, (tasks j).target fs = (tasks i).target fs ∧ Made tasks fs as j icon ∧
        (tasks i).contentAtOutput (World.after tasks fs as).files = some icon) ∧
    ∀ i n, (World.after tasks fs as).stage i = .finished (.ok n) →
      ∃ before c rest t icon, as = before ++ .step i c :: rest ∧
        (World.after tasks fs before).stage i = .moving t n ∧ Made tasks fs before i icon ∧ n = icon.length ∧
        (tasks i).contentAtOutput (World.after tasks fs (before ++ [.step i c])).files = some icon := by
  refine ⟨fun i => ?_, fun i n hi => exists_move hout hlinks has hi⟩
  have h := inv_after hout hlinks has
  rw [Task.contentAtOutput_eq _ h.ways, Task.contentAtOutput_eq _ (.refl fs)]
  cases hp : (tasks i).target fs with
  | error e => exact Or.inl rfl
  | ok p =>
    rcases h.outputs i p hp with e | ⟨j, icon, hj, hm, hc⟩
    · exact Or.inl e
    · exact Or.inr ⟨j, icon, hj, hm, hc⟩

end

/-! ## Two conversions with one output, one of them killed while it writes -/

def twoTasks (_ : Bool) : Task := ⟨onePixelJob, anyone⟩

/-- Nothing fails; the file is called `.png2ico-x.tmp` for some `x`. -/
def calm (x : UInt8) : Circumstance := ⟨none, temporaryStart ++ [x] ++ temporaryEnd, 64⟩

def killedWhileWriting : List (Action Bool) :=
  List.replicate 5 (.step true (calm 49)) ++ List.replicate 5 (.step false (calm 50)) ++ [.kill true]
    ++ List.replicate 5 (.step false (calm 50))

theorem noLinks_onePixelFiles (p : Place) (t : Path) : onePixelFiles.get? p ≠ some (.link t) := by
  cases p with
  | nil => simp [Files.get?]
  | cons n d =>
    simp only [Files.get?, onePixelFiles, List.lookup_cons, List.lookup_nil]
    split
    · simp
    · split <;> simp

theorem temporary_calm {x : UInt8} (hx : x ≠ Path.slash) : IsTemporaryName (calm x).name :=
  ⟨[x], by simpa using Ne.symm hx, rfl⟩

/-- The conversion that is not killed ends well, and after its move the whole icon is there. -/
theorem the_survivor_leaves_its_icon :
    (World.after twoTasks onePixelFiles killedWhileWriting).stage false = .finished (.ok 95) ∧
      ∃ before c rest t icon, killedWhileWriting = before ++ .step false c :: rest ∧
        (World.after twoTasks onePixelFiles before).stage false = .moving t 95 ∧
        Made twoTasks onePixelFiles before false icon ∧ 95 = icon.length ∧
        (twoTasks false).contentAtOutput (World.after twoTasks onePixelFiles (before ++ [.step false c])).files
          = some icon := by
  have hend : (World.after twoTasks onePixelFiles killedWhileWriting).stage false = .finished (.ok 95) := by cbv
  have hout : ∀ i n, Path.fileName? (twoTasks i).job.output = some n → ¬ IsTemporaryName n := by
    intro i n hn ht
    have hb : Path.fileName? (twoTasks i).job.output = some [98] := by rfl
    rw [hb, Option.some.injEq] at hn
    subst hn
    exact absurd (length_temporaryName ht) (by decide)
  have hnames : ∀ a ∈ killedWhileWriting, a.NamesTemporary := by
    intro a ha
    simp only [killedWhileWriting, List.mem_append, List.mem_replicate, List.mem_singleton] at ha
    rcases ha with ((⟨-, rfl⟩ | ⟨-, rfl⟩) | rfl) | ⟨-, rfl⟩
    · exact temporary_calm (by decide)
    · exact temporary_calm (by decide)
    · trivial
    · exact temporary_calm (by decide)
  exact ⟨hend, (outputs_are_whole twoTasks onePixelFiles killedWhileWriting noLinks_onePixelFiles hout hnames).2
    false 95 hend⟩

end Conversion

end IconMaker
