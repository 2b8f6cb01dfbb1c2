import IconMaker.Proofs.Conversion.Causes
import IconMaker.Proofs.Conversion.Temporary

/-
  IconMaker.Proofs.Conversion.Ready — runs that nothing fails for.

  `Weather.Fair` says that the operating system refuses nothing for a reason of its own, and `Ready`
  lists what a run needs of the files. The two are enough (`convert_of_ready`): of the causes that a
  failure has, there is none.
-/

namespace IconMaker.Conversion

variable {job : Job} {caller : Caller} {w : Weather} {fs fs' : Files} {p t : Place} {written : Bytes}

/-- Nothing fails but for a reason that is in the files, and the name that the temporary file is
    given is free in the directory `d`. -/
structure Weather.Fair (w : Weather) (fs : Files) (d : Place) : Prop where
  failure : ∀ k, w.failure k = none
  free : fs.get? ((w.name fs).bytes :: d) = none

theorem fair_of_few (hw : ∀ k, w.failure k = none) (hname : w.name = .unused)
    (hfew : fs.entries.length < TemporaryName.count) (d : Place) : w.Fair fs d where
  failure := hw
  free := by
    rw [hname]
    exact TemporaryName.get?_unused hfew d

/-- What a run needs of the files, if the output's entry is in the place `p`. -/
structure Ready [Png.Writer] (job : Job) (caller : Caller) (fs : Files) (p : Place) : Prop where
  input : ∃ icon, iconOf job (fs.read caller.cwd job.input) = some icon
  writable : ∀ m, fs.fileMode? caller.cwd job.output = some m → m.readOnly = false
  entry : fs.moveTarget caller.cwd job.output = .ok p
  noDirectory : ∀ m, fs.get? p ≠ some (.dir m)
  mayChange : fs.mayChange p.tail = .ok ()
  /-- There is room for the path of a temporary file. -/
  path : ∃ n : TemporaryName, Files.checkPath (Files.inDirectory (Path.directory job.output) n.bytes) = .ok ()

variable [Png.Writer]

theorem makeFile_of_ready (h : Ready job caller fs p) (hw : w.Fair fs p.tail) (m : Mode) (e : IoError) :
    fs.makeFile caller (Path.directory job.output) (w.name fs).bytes m ≠ .error e := by
  obtain ⟨before, k, d, -, hr, hd, rfl⟩ := Files.moveTarget_iff.1 h.entry
  obtain ⟨n, hn⟩ := h.path
  have hresolve : fs.resolve caller.cwd false (Files.inDirectory (Path.directory job.output) (w.name fs).bytes) =
      .ok ((w.name fs).bytes :: d) := ((w.name fs).resolve_iff hr hd).2 ⟨n.checkPath_congr _ hn, rfl⟩
  have hfree : fs.get? ((w.name fs).bytes :: d) = none := hw.free
  have hmay : fs.mayChange d = .ok () := h.mayChange
  simp [Files.makeFile, hresolve, hfree, hmay]

theorem move_of_ready (h : Ready job caller fs p) (hadds : Adds fs t written fs') (e : IoError) :
    fs'.move caller.cwd t job.output ≠ .error e := by
  obtain ⟨hfree, m, rfl⟩ := hadds
  have hways := Files.sameWays_insert (m := m) (c := written) hfree
  have hentry := Files.moveTarget_eq hways h.entry
  have hmay := Files.mayChange_eq hways h.mayChange
  have hget : ∀ q, (fs.insert t (.file m written)).get? q = if q = t then some (.file m written) else fs.get? q :=
    fun q => Files.get?_insert (Files.ne_nil_of_free hfree)
  have hfile : (fs.insert t (.file m written)).get? t = some (.file m written) := by rw [hget, if_pos rfl]
  have hdir : ∀ m', (fs.insert t (.file m written)).get? p ≠ some (.dir m') := by
    intro m'
    rw [hget]
    split
    · simp
    · exact h.noDirectory m'
  unfold Files.move
  rw [hentry, hfile]
  simp only [hmay]
  split <;> simp

/-- In no state of the run anything is refused. -/
theorem not_refusedAt (h : Ready job caller fs p) (hw : w.Fair fs p.tail) (n : Nat) (e : IoError) :
    ¬ RefusedAt job caller w fs n e := by
  have hmeet : ∀ {α : Type} {r : Except IoError α} {k : Nat} {files : Files}, (w.at k files).meet r = r := by
    intro α r k files
    have hfailure : (w.at k files).failure = none := hw.failure k
    rw [Circumstance.meet, hfailure]
  have hfailure : ∀ {k : Nat} {files : Files}, (w.at k files).failure ≠ some e := by
    intro k files
    rw [show (w.at k files).failure = none from hw.failure k]
    simp
  intro hrefused
  have halone := alone_stateAt job caller w fs n
  unfold RefusedAt at hrefused
  generalize stateAt job caller w fs n = x at halone hrefused
  obtain ⟨s, files⟩ := x
  cases hrefused with
  | create hc =>
    obtain ⟨rfl, -⟩ := halone
    rw [hmeet] at hc
    exact makeFile_of_ready h hw _ e hc
  | write hc | sync hc | measure hc => exact hfailure hc
  | move hc =>
    obtain ⟨icon, hadds, -⟩ := halone
    rw [hmeet] at hc
    exact move_of_ready h hadds e hc

theorem convert_of_ready (h : Ready job caller fs p) (hw : w.Fair fs p.tail) :
    ∃ report fs', convert job caller w fs = (.ok report, fs') := by
  cases hrun : convert job caller w fs with
  | mk r fs' =>
    cases r with
    | ok report => exact ⟨report, fs', rfl⟩
    | error e =>
      exfalso
      cases cause_of_error (congrArg Prod.fst hrun) with
      | input hi =>
        obtain ⟨icon, hicon⟩ := h.input
        rw [inputOf, hw.failure 0, ← prepare_eq_error_iff] at hi
        rw [iconOf, hi] at hicon
        cases hicon
      | readOnly _ hseen hm =>
        have hfailure : (w.at 1 fs).failure = none := hw.failure 1
        rw [outputSeen, Circumstance.look, hfailure] at hseen
        rw [h.writable _ hseen] at hm
        cases hm
      | refused _ hr => exact not_refusedAt h hw _ _ hr

end IconMaker.Conversion
