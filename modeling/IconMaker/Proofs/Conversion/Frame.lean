import IconMaker.Proofs.Conversion.Output

/-
  IconMaker.Proofs.Conversion.Frame — what a conversion that succeeds touches.

  The entry of the output is in the directory that the temporary file was made in, under another
  name or under the same: `resolve_temporary` says where every temporary file of a run is, and
  `tail_of_temporary` that the move does not leave this directory. Of all places only the entry is
  another one afterwards (`only_the_output_is_touched`): a link at the output is replaced and not
  followed, the input is read before anything is written, and other files that are named like
  temporary ones stay.
-/

namespace IconMaker.Conversion

variable {job : Job} {caller : Caller} {w : Weather} {fs fs' : Files} {report : Report} {n : Nat} {t p : Place}

/-- The temporary file and the output's entry are in one directory. -/
theorem tail_of_temporary (hp : fs.moveTarget caller.cwd job.output = .ok p)
    (ht : fs.resolve caller.cwd false (Files.inDirectory (Path.directory job.output) (w.name fs).bytes) = .ok t) :
    t.tail = p.tail := by
  obtain ⟨before, n, d, -, hr, hd, rfl⟩ := Files.moveTarget_iff.1 hp
  obtain ⟨-, rfl⟩ := ((w.name fs).resolve_iff hr hd).1 ht
  rfl

section

variable [Png.LawfulWriter]

/-! ## Runs, state by state -/

theorem not_cause (h : convert job caller w fs = (.ok report, fs')) (e : ConvertError) : ¬ Cause job caller w fs e := by
  intro hcause
  have herror := error_of_cause hcause
  rw [h] at herror
  cases herror

/-- The entries can be made. -/
theorem exists_frames_of_convert (h : convert job caller w fs = (.ok report, fs')) :
    ∃ frames, prepare job (inputOf job caller w fs) = .ok frames := by
  rcases input_cases job caller w fs with ⟨e, he⟩ | hdec
  · exact absurd (.input he) (not_cause h e)
  · exact exists_frames hdec

theorem writable_of_convert (h : convert job caller w fs = (.ok report, fs')) {m : Mode}
    (hm : outputSeen job caller w fs = some m) : m.readOnly = false := by
  obtain ⟨frames, hp⟩ := exists_frames_of_convert h
  rw [← Bool.not_eq_true]
  intro hreadOnly
  exact not_cause h _ (.readOnly (decodes_of_prepare hp) hm hreadOnly)

theorem stateAt_three_of_convert (h : convert job caller w fs = (.ok report, fs')) :
    ∃ frames, prepare job (inputOf job caller w fs) = .ok frames ∧
      stateAt job caller w fs 3 = (.creating frames (modeAsked job caller w fs), fs) := by
  obtain ⟨frames, hp⟩ := exists_frames_of_convert h
  rcases stateAt_two_cases hp with htwo | ⟨m, hseen, hm, -⟩
  · exact ⟨frames, hp, stateAt_three htwo⟩
  · rw [writable_of_convert h hseen] at hm
    cases hm

/-- The fourth step made the temporary file. -/
theorem exists_created (h : convert job caller w fs = (.ok report, fs')) : ∃ t icon files,
    fs.makeFile caller (Path.directory job.output) (w.name fs).bytes (modeAsked job caller w fs) = .ok (t, files) ∧
      stateAt job caller w fs 4 = (.writing t icon, files) := by
  obtain ⟨frames, hp, hthree⟩ := stateAt_three_of_convert h
  cases hmake : (w.at 3 fs).meet
      (fs.makeFile caller (Path.directory job.output) (w.at 3 fs).name (modeAsked job caller w fs)) with
  | error e =>
    have hrefused : RefusedAt job caller w fs 3 e := by
      simp only [RefusedAt, hthree]
      exact .create hmake
    exact absurd (.refused (decodes_of_prepare hp) hrefused) (not_cause h _)
  | ok x =>
    obtain ⟨icon, hicon⟩ := exists_encode_of_prepare hp
    refine ⟨x.1, icon, x.2, (meet_eq_ok hmake).2, ?_⟩
    rw [stateAt, hthree]
    simp only [advance, hmake, Stage.afterCreating, hicon]

/-! ## The temporary file -/

/-- A step that has a temporary file found it, or made it. -/
theorem temporary_step {c : Circumstance} {s s' : Stage} {files files' : Files} (hs : Step job caller c files s s' files')
    (ht : s'.temporary? = some t) : s.temporary? = some t ∨
      ∃ frames m, s = .creating frames m ∧
        files.makeFile caller (Path.directory job.output) c.name m = .ok (t, files') := by
  cases hs with
  | created hmake | vain hmake =>
    cases ht
    exact Or.inr ⟨_, _, rfl, hmake⟩
  | wrote | written | synced | measured => exact Or.inl ht
  | failed htemporary =>
    cases ht
    exact Or.inl htemporary
  | _ => cases ht

theorem resolve_temporary (ht : (stateAt job caller w fs n).1.temporary? = some t) :
    fs.resolve caller.cwd false (Files.inDirectory (Path.directory job.output) (w.name fs).bytes) = .ok t ∧
      fs.get? t = none := by
  induction n with
  | zero => cases ht
  | succ n ih =>
    have hs := step_advance job caller (w.at n (stateAt job caller w fs n).2) (stateAt job caller w fs n).2
      (stateAt job caller w fs n).1
    rcases temporary_step hs ht with hbefore | ⟨frames, m, hcreating, hmake⟩
    · exact ih hbefore
    · have halone := alone_stateAt job caller w fs n
      rw [hcreating] at halone
      obtain ⟨hfiles, -⟩ := halone
      rw [hfiles] at hmake
      obtain ⟨hresolve, hfree, -⟩ := Files.makeFile_eq hmake
      exact ⟨hresolve, hfree⟩

/-! ## What is touched -/

/-- A run made one temporary file, beside the entry `p` and where nothing was, and has not left it
    there. -/
structure TemporaryBeside (job : Job) (caller : Caller) (w : Weather) (fs fs' : Files) (p t : Place) : Prop where
  made : ∃ n, (stateAt job caller w fs n).1.temporary? = some t
  only : ∀ n t', (stateAt job caller w fs n).1.temporary? = some t' → t' = t
  free : fs.get? t = none
  beside : t.tail = p.tail
  gone : t ≠ p → fs'.get? t = none

/-- A run has put the icon in the place of the output's entry `p` and touched nothing else. -/
structure TouchesOnly (job : Job) (caller : Caller) (w : Weather) (fs : Files) (report : Report) (fs' : Files)
    (p : Place) : Prop where
  /-- The entry itself, and not what a link in its place leads to. -/
  entry : fs.resolve caller.cwd false job.output = .ok p
  noDirectory : ∀ m, fs.get? p ≠ some (.dir m)
  /-- The file that the output led to, if it could be examined, was not read-only. -/
  writable : ∀ m, outputSeen job caller w fs = some m → m.readOnly = false
  elsewhere : ∀ q, q ≠ p → fs'.get? q = fs.get? q
  /-- What the input was, also if it was in the same place. -/
  icon : ∃ image icon mode, loadImage job.input (fs.read caller.cwd job.input) = .ok image ∧
    Icon.Shows icon job.sizes (entryImage image job.filter) ∧ fs'.get? p = some (.file mode icon) ∧
    report = Report.of job icon.length
  /-- The output leads to its entry, unless the way to its directory came through what was there. -/
  reached : p ∉ fs.trailOf caller.cwd (Path.directory job.output) → fs'.resolve caller.cwd true job.output = .ok p
  temporary : ∃ t, TemporaryBeside job caller w fs fs' p t

/-- The file that a link in the place of the entry led to is still there. -/
theorem TouchesOnly.followed {l : Path} {q : Place} {m : Mode} {c : Bytes} (h : TouchesOnly job caller w fs report fs' p)
    (hlink : fs.get? p = some (.link l)) (hlookup : fs.lookup caller.cwd true job.output = .ok (q, .file m c)) :
    fs'.get? q = some (.file m c) := by
  have hq := Files.get?_of_lookup hlookup
  rw [h.elsewhere q, hq]
  intro e
  rw [e, hlink] at hq
  cases hq

theorem temporaryBeside {t : Place} {files : Files} {icon : Bytes}
    (hp : fs.moveTarget caller.cwd job.output = .ok p) (hfour : stateAt job caller w fs 4 = (.writing t icon, files))
    (hsame : ∀ q, q ≠ p → fs'.get? q = fs.get? q) : TemporaryBeside job caller w fs fs' p t := by
  have hmade : (stateAt job caller w fs 4).1.temporary? = some t := by
    rw [hfour]
    rfl
  obtain ⟨hresolve, hfree⟩ := resolve_temporary hmade
  refine ⟨⟨4, hmade⟩, fun n t' ht' => ?_, hfree, tail_of_temporary hp hresolve, fun hne => (hsame t hne).trans hfree⟩
  have hresolve' := (resolve_temporary ht').1
  rw [hresolve] at hresolve'
  cases hresolve'
  rfl

/-- A conversion that succeeds touches one place, that of the output's own entry. -/
theorem only_the_output_is_touched (h : convert job caller w fs = (.ok report, fs')) :
    ∃ p, TouchesOnly job caller w fs report fs' p := by
  have hwritable : ∀ m, outputSeen job caller w fs = some m → m.readOnly = false := fun m hm => writable_of_convert h hm
  obtain ⟨t, _, files, -, hfour⟩ := exists_created h
  rcases convert_cases job caller w fs with ⟨e, he⟩ | ⟨image, icon, _, hok, himage, hreplaced, hshows⟩
  · rw [he] at h
    cases h
  · rw [hok] at h
    cases h
    obtain ⟨p, mode, hp, hdir, rfl⟩ := hreplaced
    have hget : ∀ q, (fs.put p (.file mode icon)).get? q = if q = p then some (.file mode icon) else fs.get? q :=
      fun q => Files.get?_put (Files.moveTarget_ne_nil hp)
    have hfile : (fs.put p (.file mode icon)).get? p = some (.file mode icon) := by rw [hget, if_pos rfl]
    have hsame : ∀ q, q ≠ p → (fs.put p (.file mode icon)).get? q = fs.get? q := fun q hq => by rw [hget, if_neg hq]
    exact ⟨p, Files.resolve_of_moveTarget hp, hdir, hwritable, hsame, ⟨image, icon, mode, himage, hshows, hfile, rfl⟩,
      Files.resolve_put_of_trail hp, t, temporaryBeside hp hfour hsame⟩

end

/-- Where the output is a link, and a file is named like a temporary one. -/
def linkedFiles : Files :=
  ⟨[([[98]], .link [99]), ([[99]], .file 0o640#12 [1, 2]), ([(TemporaryName.numbered 0).bytes], .file 0o600#12 []),
    ([[97]], .file 0o600#12 onePixel)]⟩

theorem convert_linkedFiles :
    ∃ fs', convert onePixelJob anyone .calm linkedFiles = (.ok (Report.of onePixelJob 95), fs') := by
  have hreport : (convert onePixelJob anyone .calm linkedFiles).1 = .ok (Report.of onePixelJob 95) := by cbv
  exact ⟨_, Prod.ext hreport rfl⟩

/-- The link is replaced, and what it led to and the other file are as before. -/
theorem a_link_is_not_followed :
    ∃ fs', convert onePixelJob anyone .calm linkedFiles = (.ok (Report.of onePixelJob 95), fs') ∧
      TouchesOnly onePixelJob anyone .calm linkedFiles (Report.of onePixelJob 95) fs' [[98]] ∧
      fs'.get? [[99]] = some (.file 0o640#12 [1, 2]) ∧
      fs'.get? [(TemporaryName.numbered 0).bytes] = some (.file 0o600#12 []) := by
  obtain ⟨fs', hrun⟩ := convert_linkedFiles
  obtain ⟨p, htouches⟩ := only_the_output_is_touched hrun
  have hentry : linkedFiles.resolve [] false [98] = .ok [[98]] := by cbv
  have hp : p = [[98]] := by
    have h := htouches.entry
    change linkedFiles.resolve [] false [98] = .ok p at h
    rw [hentry] at h
    cases h
    rfl
  subst hp
  refine ⟨fs', hrun, htouches, htouches.followed (l := [99]) rfl (by cbv), ?_⟩
  rw [htouches.elsewhere _ (by decide)]
  rfl

end IconMaker.Conversion
