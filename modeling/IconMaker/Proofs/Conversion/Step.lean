import IconMaker.Conversion.Stage

/-
  IconMaker.Proofs.Conversion.Step — everything that one step of a conversion can do.

  `Step` lists the outcomes of a step with what has to hold for each, and `step_advance`
  says that `advance` has no other. Invariants of a conversion go through the constructors
  of `Step` and not through the definition of `advance`.
-/

namespace IconMaker.Conversion

/-- The icon that a job makes of what reading its input gave. -/
def iconOf [Png.Writer] (job : Job) (r : Except IoError Bytes) : Option Bytes :=
  match prepare job r with
  | .error _ => none
  | .ok frames => Icon.encode frames

/-- The temporary file of a stage that has one. -/
def Stage.temporary? : Stage → Option Place
  | writing t _ | syncing t | measuring t | moving t _ | discarding t _ => some t
  | _ => none

/-- The stage, and the files, that a step from a stage on may lead to. -/
inductive Step [Png.Writer] (job : Job) (caller : Caller) (c : Circumstance) (fs : Files) :
    Stage → Stage → Files → Prop
  | read {frames : List Frame} : c.failure = none → prepare job (fs.read caller.cwd job.input) = .ok frames →
      Step job caller c fs .reading (.examining frames) fs
  | unread {e : ConvertError} : prepare job (c.meet (fs.read caller.cwd job.input)) = .error e →
      Step job caller c fs .reading (.finished (.error e)) fs
  | examined {frames : List Frame} : (∀ m, c.look fs caller.cwd job.output = some m → m.readOnly = false) →
      Step job caller c fs (.examining frames) (.asking frames) fs
  | refused {frames : List Frame} {m : Mode} : c.look fs caller.cwd job.output = some m → m.readOnly = true →
      Step job caller c fs (.examining frames)
        (.finished (.error (.outputUnwritable job.output .permissionDenied))) fs
  | asked {frames : List Frame} : Step job caller c fs (.asking frames)
      (.creating frames ((c.look fs caller.cwd job.output).getD usualMode)) fs
  | uncreated {frames : List Frame} {m : Mode} {e : IoError} :
      c.meet (fs.makeFile caller (Path.directory job.output) c.name m) = .error e →
      Step job caller c fs (.creating frames m) (.finished (.error (.outputUnwritable job.output e))) fs
  | created {frames : List Frame} {m : Mode} {t : Place} {fs' : Files} {icon : Bytes} :
      fs.makeFile caller (Path.directory job.output) c.name m = .ok (t, fs') → Icon.encode frames = some icon →
      Step job caller c fs (.creating frames m) (.writing t icon) fs'
  /-- The file is there, but no icon can be made of the entries. -/
  | vain {frames : List Frame} {m : Mode} {t : Place} {fs' : Files} :
      fs.makeFile caller (Path.directory job.output) c.name m = .ok (t, fs') → Icon.encode frames = none →
      Step job caller c fs (.creating frames m) (.discarding t .noIcon) fs'
  | wrote {t : Place} {rest : Bytes} {n : Nat} : rest ≠ [] → 0 < n →
      Step job caller c fs (.writing t rest) (.writing t (rest.drop n)) (fs.append t (rest.take n))
  | written {t : Place} : Step job caller c fs (.writing t []) (.syncing t) fs
  | synced {t : Place} : Step job caller c fs (.syncing t) (.measuring t) fs
  | measured {t : Place} : Step job caller c fs (.measuring t) (.moving t (fs.fileSize t)) fs
  | moved {t : Place} {n : Nat} {fs' : Files} : fs.move caller.cwd t job.output = .ok fs' →
      Step job caller c fs (.moving t n) (.finished (.ok n)) fs'
  /-- A step on the temporary file fails. -/
  | failed {s : Stage} {t : Place} {e : IoError} : s.temporary? = some t → (∀ e', s ≠ .discarding t e') →
      Step job caller c fs s (.discarding t (.outputUnwritable job.output e)) fs
  | discarded {t : Place} {e : ConvertError} : Step job caller c fs (.discarding t e) (.finished (.error e)) (fs.erase t)
  | stayed {r : Except ConvertError Nat} : Step job caller c fs (.finished r) (.finished r) fs

theorem prepare_error [Png.Writer] (job : Job) (e : IoError) : ∃ e', prepare job (.error e) = .error e' := by
  cases e <;> exact ⟨_, rfl⟩

theorem meet_eq_ok {α : Type} {c : Circumstance} {r : Except IoError α} {x : α} (h : c.meet r = .ok x) :
    c.failure = none ∧ r = .ok x := by
  unfold Circumstance.meet at h
  split at h
  · cases h
  · rename_i hc
    exact ⟨hc, h⟩

variable [Png.Writer] (job : Job) (caller : Caller) (c : Circumstance) (fs : Files)

theorem step_reading : Step job caller c fs .reading (.afterReading job (c.meet (fs.read caller.cwd job.input))) fs := by
  unfold Stage.afterReading
  split
  · exact .unread ‹_›
  · rename_i frames hp
    cases hc : c.failure with
    | some e =>
      obtain ⟨e', he⟩ := prepare_error job e
      simp [Circumstance.meet, hc, he] at hp
    | none => exact .read hc (by simpa [Circumstance.meet, hc] using hp)

theorem step_examining (frames : List Frame) : Step job caller c fs (.examining frames)
    (.afterExamining job frames (c.look fs caller.cwd job.output)) fs := by
  cases hseen : c.look fs caller.cwd job.output with
  | none => exact .examined (by simp [hseen])
  | some m =>
    simp only [Stage.afterExamining]
    by_cases hr : m.readOnly = true
    · rw [if_pos hr]
      exact .refused hseen hr
    · rw [if_neg hr]
      exact .examined (by simpa [hseen] using hr)

theorem step_advance (s : Stage) :
    Step job caller c fs s (advance job caller c fs s).1 (advance job caller c fs s).2 := by
  cases s with
  | reading => exact step_reading job caller c fs
  | examining frames => exact step_examining job caller c fs frames
  | asking frames => exact .asked
  | creating frames m =>
    simp only [advance]
    split
    · exact .uncreated ‹_›
    · rename_i t fs' hm
      have hmake := (meet_eq_ok hm).2
      unfold Stage.afterCreating
      split
      · exact .vain hmake ‹_›
      · exact .created hmake ‹_›
  | writing t rest =>
    simp only [advance]
    split
    · exact .failed rfl (fun _ h => by cases h)
    · by_cases hr : rest = []
      · subst hr
        exact .written
      · simp only [if_neg hr]
        exact .wrote hr (by omega)
  | syncing t =>
    simp only [advance]
    split
    · exact .failed rfl (fun _ h => by cases h)
    · exact .synced
  | measuring t =>
    simp only [advance]
    split
    · exact .failed rfl (fun _ h => by cases h)
    · rename_i n hn
      have := (meet_eq_ok hn).2
      cases this
      exact .measured
  | moving t n =>
    simp only [advance]
    split
    · exact .failed rfl (fun _ h => by cases h)
    · exact .moved (meet_eq_ok ‹_›).2
  | discarding t e => exact .discarded
  | finished r => exact .stayed

end IconMaker.Conversion
