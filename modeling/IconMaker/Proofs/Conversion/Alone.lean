import IconMaker.Proofs.Conversion.Step
import IconMaker.Proofs.FileSystem.Ways

/-
  IconMaker.Proofs.Conversion.Alone — a conversion that nothing else interferes with.

  `Alone` says for every stage what the files are, compared with what they were at the start:
  the same, or the same and the temporary file with the part of the icon that has been
  written. At the end the temporary file is gone, and after a success the whole icon is in the
  output's place. `alone_advance` is the step, `alone_steps` any number of them, with
  whatever failures, file names and partial writes. So a conversion ends in one of two ways
  (`convert_outcome`).
-/

namespace IconMaker.Conversion

/-- Steps under one circumstance after another. -/
def steps [Png.Writer] (job : Job) (caller : Caller) (cs : List Circumstance) (x : Stage × Files) : Stage × Files :=
  cs.foldl (fun y c => advance job caller c y.2 y.1) x

/-- The files of the start and one more, in a place that was free. -/
def Adds (start : Files) (t : Place) (written : Bytes) (fs : Files) : Prop :=
  start.get? t = none ∧ ∃ m, fs = start.insert t (.file m written)

/-- The icon was put into the output's place, where no directory was. -/
def Replaced (job : Job) (caller : Caller) (start : Files) (icon : Bytes) (fs : Files) : Prop :=
  ∃ target m, start.moveTarget caller.cwd job.output = .ok target ∧
    (∀ m', start.get? target ≠ some (.dir m')) ∧ fs = start.put target (.file m icon)

def Alone [Png.Writer] (job : Job) (caller : Caller) (start : Files) : Stage → Files → Prop
  | .reading, fs => fs = start
  | .examining frames, fs | .asking frames, fs | .creating frames _, fs =>
    fs = start ∧ prepare job (start.read caller.cwd job.input) = .ok frames
  | .writing t rest, fs =>
    ∃ done icon, Adds start t done fs ∧ iconOf job (start.read caller.cwd job.input) = some icon ∧ done ++ rest = icon
  | .syncing t, fs | .measuring t, fs =>
    ∃ icon, Adds start t icon fs ∧ iconOf job (start.read caller.cwd job.input) = some icon
  | .moving t n, fs =>
    ∃ icon, Adds start t icon fs ∧ iconOf job (start.read caller.cwd job.input) = some icon ∧ n = icon.length
  | .discarding t _, fs => ∃ written, Adds start t written fs
  | .finished (.error _), fs => fs = start
  | .finished (.ok n), fs =>
    ∃ icon, Replaced job caller start icon fs ∧ iconOf job (start.read caller.cwd job.input) = some icon ∧
      n = icon.length

variable {job : Job} {caller : Caller} {start fs : Files}

theorem adds_makeFile {d : Path} {n : Name} {m : Mode} {t : Place} {fs' : Files}
    (h : start.makeFile caller d n m = .ok (t, fs')) : Adds start t [] fs' := by
  obtain ⟨_, hfree, rfl⟩ := Files.makeFile_eq h
  exact ⟨hfree, _, rfl⟩

theorem adds_append {t : Place} {written bs : Bytes} (h : Adds start t written fs) :
    Adds start t (written ++ bs) (fs.append t bs) := by
  obtain ⟨hfree, m, rfl⟩ := h
  exact ⟨hfree, _, Files.append_insert hfree⟩

theorem replaced_move {t : Place} {icon : Bytes} {fs' : Files} (h : Adds start t icon fs)
    (hm : fs.move caller.cwd t job.output = .ok fs') : Replaced job caller start icon fs' := by
  obtain ⟨hfree, m, rfl⟩ := h
  obtain ⟨target, ht, rfl⟩ := Files.move_insert hfree hm
  obtain ⟨target', _, ht', _, hdir, _⟩ := Files.move_eq hm
  have hways := Files.sameWays_insert (m := m) (c := icon) hfree
  rw [ht] at ht'
  cases ht'
  refine ⟨target, m, Files.moveTarget_eq hways.symm ht, fun m' hm' => ?_, rfl⟩
  rcases hways target with e | ⟨hl, _⟩
  · exact hdir m' (e ▸ hm')
  · rw [hm'] at hl
    cases hl

variable [Png.Writer]

theorem iconOf_eq {r : Except IoError Bytes} {frames : List Frame} (h : prepare job r = .ok frames) :
    iconOf job r = Icon.encode frames := by
  simp [iconOf, h]

/-- Every stage with a temporary file allows to go on by discarding it. -/
theorem adds_of_temporary {s : Stage} {t : Place} (h : Alone job caller start s fs) (ht : s.temporary? = some t) :
    ∃ written, Adds start t written fs := by
  cases s with
  | writing =>
    cases ht
    obtain ⟨done, _, ha, _⟩ := h
    exact ⟨done, ha⟩
  | syncing | measuring =>
    cases ht
    obtain ⟨icon, ha, _⟩ := h
    exact ⟨icon, ha⟩
  | moving =>
    cases ht
    obtain ⟨icon, ha, _⟩ := h
    exact ⟨icon, ha⟩
  | discarding =>
    cases ht
    exact h
  | _ => cases ht

theorem alone_step {c : Circumstance} {s s' : Stage} {fs' : Files} (h : Alone job caller start s fs)
    (hs : Step job caller c fs s s' fs') : Alone job caller start s' fs' := by
  cases hs with
  | read _ hp => cases h; exact ⟨rfl, hp⟩
  | unread | refused | uncreated => simp only [Alone] at h ⊢; simp [h]
  | examined | asked => exact h
  | created hmake he =>
    obtain ⟨rfl, hp⟩ := h
    exact ⟨[], _, adds_makeFile hmake, (iconOf_eq hp).trans he, rfl⟩
  | vain hmake _ =>
    obtain ⟨rfl, _⟩ := h
    exact ⟨[], adds_makeFile hmake⟩
  | wrote _ _ =>
    obtain ⟨done, icon, ha, hi, hd⟩ := h
    exact ⟨_, icon, adds_append ha, hi, by rw [List.append_assoc, List.take_append_drop, hd]⟩
  | written =>
    obtain ⟨done, icon, ha, hi, hd⟩ := h
    rw [List.append_nil] at hd
    exact ⟨icon, hd ▸ ha, hi⟩
  | synced => exact h
  | measured =>
    obtain ⟨icon, ha, hi⟩ := h
    refine ⟨icon, ha, hi, ?_⟩
    obtain ⟨hfree, m, rfl⟩ := ha
    exact Files.fileSize_insert hfree
  | moved hm =>
    obtain ⟨icon, ha, hi, hn⟩ := h
    exact ⟨icon, replaced_move ha hm, hi, hn⟩
  | failed ht _ => exact adds_of_temporary h ht
  | discarded =>
    obtain ⟨_, hfree, m, rfl⟩ := h
    exact Files.erase_insert hfree
  | stayed => exact h

theorem alone_advance {s : Stage} (c : Circumstance) (h : Alone job caller start s fs) :
    Alone job caller start (advance job caller c fs s).1 (advance job caller c fs s).2 :=
  alone_step h (step_advance job caller c fs s)

theorem alone_steps {s : Stage} (cs : List Circumstance) (h : Alone job caller start s fs) :
    Alone job caller start (steps job caller cs (s, fs)).1 (steps job caller cs (s, fs)).2 := by
  induction cs generalizing s fs with
  | nil => exact h
  | cons c cs ih => exact ih (alone_advance c h)

/-- A run takes the steps of some circumstances. -/
theorem exists_steps (job : Job) (caller : Caller) (w : Weather) (k : Nat) (s : Stage) (fs : Files) :
    ∃ cs, steps job caller cs (s, fs)
      = (.finished (run job caller w k s fs).2.1, (run job caller w k s fs).2.2) := by
  fun_induction run job caller w k s fs with
  | case1 k s fs r h =>
    refine ⟨[], ?_⟩
    cases s with
    | finished r' => cases h; rfl
    | _ => cases h
  | case2 k s fs h x y ih =>
    obtain ⟨cs, hcs⟩ := ih
    exact ⟨w.at k fs :: cs, hcs⟩

theorem exists_steps_of_convert {w : Weather} {r : Except ConvertError Report} {fs' : Files}
    (h : convert job caller w fs = (r, fs')) :
    ∃ cs r', steps job caller cs (.reading, fs) = (.finished r', fs') ∧ r = r'.map (Report.of job) := by
  obtain ⟨cs, hcs⟩ := exists_steps job caller w 0 .reading fs
  unfold convert at h
  simp only [Prod.mk.injEq] at h
  obtain ⟨rfl, rfl⟩ := h
  exact ⟨cs, _, hcs, rfl⟩

theorem alone_of_steps {cs : List Circumstance} {r : Except ConvertError Nat} {fs' : Files}
    (h : steps job caller cs (.reading, fs) = (.finished r, fs')) : Alone job caller fs (.finished r) fs' := by
  have hstart : Alone job caller fs .reading fs := rfl
  have := alone_steps cs hstart
  rw [h] at this
  exact this

/-- A conversion changes nothing, or puts the icon of what it read in the place of the output. -/
theorem convert_outcome (job : Job) (caller : Caller) (w : Weather) (fs : Files) :
    (∃ e, convert job caller w fs = (.error e, fs)) ∨
    ∃ icon fs', convert job caller w fs = (.ok (Report.of job icon.length), fs') ∧
      iconOf job (fs.read caller.cwd job.input) = some icon ∧ Replaced job caller fs icon fs' := by
  obtain ⟨cs, hcs⟩ := exists_steps job caller w 0 .reading fs
  have hend := alone_of_steps hcs
  simp only [convert]
  cases hr : (run job caller w 0 .reading fs).2.1 with
  | error e =>
    rw [hr] at hend
    left
    exact ⟨e, Prod.ext rfl hend⟩
  | ok n =>
    rw [hr] at hend
    obtain ⟨icon, hreplaced, hicon, rfl⟩ := hend
    right
    exact ⟨icon, _, rfl, hicon, hreplaced⟩

end IconMaker.Conversion
