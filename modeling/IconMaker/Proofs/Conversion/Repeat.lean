import IconMaker.Proofs.Conversion.Frame

/-
  IconMaker.Proofs.Conversion.Repeat — a conversion that is run again.

  A second run starts where the first one has left its icon, so it finds another file at the
  output, asks for another mode and replaces another entry. It comes to the same end all the same
  (`a_second_run_changes_nothing`).

  (1) Modes. What a run leaves of the mode that it asked for (`modeAfter`) is what another run asks
      for, and of this nothing is taken away any more (`modeAfter_fixed`).
  (2) The second run. The files are ready for it (`ready_again`), and its input reads as before, if
      neither the way to the input nor the way to the output's directory comes through the output's
      entry. An output with a link on its way that is its own entry is replaced once and then lost
      (`an_output_through_itself_is_lost`).
-/

namespace IconMaker

/-! ## (1) Modes -/

namespace Mode

theorem getLsbD_afterWrite (m : Mode) : m.afterWrite.getLsbD 3 = m.getLsbD 3 := by
  unfold afterWrite
  split <;> simp [*]

theorem afterWrite_afterWrite (m : Mode) : m.afterWrite.afterWrite = m.afterWrite := by
  conv_lhs => rw [afterWrite, getLsbD_afterWrite]
  rw [afterWrite, BitVec.and_assoc, BitVec.and_self]

theorem masked_afterWrite (m umask : Mode) : (m.masked umask).afterWrite.masked umask = (m.masked umask).afterWrite := by
  obtain ⟨c, hc⟩ : ∃ c, (m.masked umask).afterWrite = m.masked umask &&& c := ⟨_, rfl⟩
  rw [hc, masked, masked, BitVec.and_assoc, BitVec.and_comm c, ← BitVec.and_assoc, BitVec.and_assoc m, BitVec.and_self]

end Mode

namespace Conversion

variable {job : Job} {caller : Caller} {w w' : Weather} {fs fs' start : Files} {report : Report} {n : Nat} {t p : Place}
  {m : Mode} {written bs : Bytes}

/-- The mode of a file that was made with `m`, after so much has been written to it. -/
def modeOf (m : Mode) (written : Bytes) : Mode := if written = [] then m else m.afterWrite

/-- The mode of the output after a run. -/
def modeAfter (job : Job) (caller : Caller) (w : Weather) (fs : Files) : Mode :=
  ((modeAsked job caller w fs).masked caller.umask).afterWrite

theorem modeAfter_fixed (hasked : modeAsked job caller w' fs' = modeAfter job caller w fs) :
    modeAfter job caller w' fs' = modeAfter job caller w fs := by
  rw [modeAfter, hasked, modeAfter, Mode.masked_afterWrite, Mode.afterWrite_afterWrite]

theorem afterWrite_modeOf (m : Mode) (written : Bytes) (hbs : bs ≠ []) :
    (modeOf m written).afterWrite = modeOf m (written ++ bs) := by
  have hne : written ++ bs ≠ [] := by simp [hbs]
  rw [modeOf, modeOf, if_neg hne]
  split
  · rfl
  · exact Mode.afterWrite_afterWrite m

/-- The files of the start and the temporary file, made with this mode. -/
def AddsWith (start : Files) (m : Mode) (t : Place) (written : Bytes) (fs : Files) : Prop :=
  start.get? t = none ∧ fs = start.insert t (.file (modeOf m written) written)

/-- What is known of the modes at a stage of a run that makes its file with `m`. -/
def Marked (job : Job) (caller : Caller) (start : Files) (m : Mode) : Stage → Files → Prop
  | .creating _ asked, _ => asked.masked caller.umask = m
  | .writing t _, fs | .syncing t, fs | .measuring t, fs | .moving t _, fs => ∃ written, AddsWith start m t written fs
  | .finished (.ok _), fs =>
    ∃ written p, start.moveTarget caller.cwd job.output = .ok p ∧ fs = start.put p (.file (modeOf m written) written)
  | _, _ => True

theorem addsWith_makeFile {d : Path} {k : Name} {asked : Mode} (h : start.makeFile caller d k asked = .ok (t, fs)) :
    AddsWith start (asked.masked caller.umask) t [] fs := by
  obtain ⟨-, hfree, rfl⟩ := Files.makeFile_eq h
  exact ⟨hfree, rfl⟩

theorem addsWith_append (hbs : bs ≠ []) (h : AddsWith start m t written fs) :
    AddsWith start m t (written ++ bs) (fs.append t bs) := by
  obtain ⟨hfree, rfl⟩ := h
  exact ⟨hfree, by rw [Files.append_insert hfree, afterWrite_modeOf m written hbs]⟩

section

variable [Png.LawfulWriter]

/-- The second look at the output decides what is asked for, and from then on the mode is settled. -/
theorem marked_step {c : Circumstance} {s s' : Stage} (halone : Alone job caller start s fs)
    (h : Marked job caller start m s fs) (hs : Step job caller c fs s s' fs')
    (hasked : ∀ frames asked, s' = .creating frames asked → asked.masked caller.umask = m) :
    Marked job caller start m s' fs' := by
  cases hs with
  | asked => exact hasked _ _ rfl
  | created hmake =>
    obtain ⟨rfl, -⟩ := halone
    cases h
    exact ⟨[], addsWith_makeFile hmake⟩
  | @wrote t rest k hrest hk =>
    obtain ⟨written, hadds⟩ := h
    refine ⟨_, addsWith_append ?_ hadds⟩
    rw [ne_eq, List.take_eq_nil_iff]
    rintro (hzero | hnil)
    · omega
    · exact hrest hnil
  | written | synced | measured => exact h
  | moved hm =>
    obtain ⟨written, hfree, rfl⟩ := h
    obtain ⟨p, hp, rfl⟩ := Files.move_insert hfree hm
    exact ⟨written, p, Files.moveTarget_eq (Files.sameWays_insert hfree).symm hp, rfl⟩
  | @stayed r => exact h
  | _ => trivial

theorem marked_stateAt (job : Job) (caller : Caller) (w : Weather) (fs : Files) (n : Nat) :
    Marked job caller fs ((modeAsked job caller w fs).masked caller.umask) (stateAt job caller w fs n).1
      (stateAt job caller w fs n).2 := by
  induction n with
  | zero => trivial
  | succ n ih =>
    refine marked_step (alone_stateAt job caller w fs n) ih (step_advance ..) fun frames asked he => ?_
    have hexplained := explained job caller w fs (n + 1)
    rw [show (stateAt job caller w fs (n + 1)).1 = .creating frames asked from he] at hexplained
    rw [hexplained.2]

/-- What a run that succeeds has put where. -/
theorem exists_put_of_convert (h : convert job caller w fs = (.ok report, fs')) :
    ∃ p icon, fs.moveTarget caller.cwd job.output = .ok p ∧ iconOf job (fs.read caller.cwd job.input) = some icon ∧
      report = Report.of job icon.length ∧ fs' = fs.put p (.file (modeAfter job caller w fs) icon) := by
  obtain ⟨n, r, hend⟩ := exists_finished job caller w fs
  have halone := alone_stateAt job caller w fs n
  have hmarked := marked_stateAt job caller w fs n
  rw [convert_eq_of_finished hend, Prod.mk.injEq] at h
  obtain ⟨hr, rfl⟩ := h
  cases r with
  | error e => cases hr
  | ok k =>
    cases hr
    rw [hend] at halone hmarked
    obtain ⟨icon, ⟨p, mode, hp, -, hput⟩, hicon, rfl⟩ := halone
    obtain ⟨written, p', hp', hput'⟩ := hmarked
    rw [hp] at hp'
    cases hp'
    have hne := Files.moveTarget_ne_nil hp
    have hsame := congrArg (Files.get? · p) (hput.symm.trans hput')
    simp only [Files.get?_put hne, if_pos, Option.some.injEq, Node.file.injEq] at hsame
    obtain ⟨-, rfl⟩ := hsame
    obtain ⟨image, -, hshows⟩ := exists_shows_of_iconOf hicon
    refine ⟨p, icon, hp, hicon, rfl, ?_⟩
    rw [hput', modeOf, if_neg hshows.ne_nil, modeAfter]

/-! ## (2) The second run -/

/-- What a run has left for the next one, if the output's entry is in the place `p`. -/
structure Leaves (job : Job) (caller : Caller) (w : Weather) (fs : Files) (report : Report) (fs' : Files) (p : Place)
    (icon : Bytes) : Prop where
  report : report = Report.of job icon.length
  files : fs' = fs.put p (.file (modeAfter job caller w fs) icon)
  entry : fs.moveTarget caller.cwd job.output = .ok p
  entryAfter : fs'.moveTarget caller.cwd job.output = .ok p
  file : fs'.get? p = some (.file (modeAfter job caller w fs) icon)
  elsewhere : ∀ q, q ≠ p → fs'.get? q = fs.get? q
  /-- The input gives the same icon again. -/
  icon : iconOf job (fs'.read caller.cwd job.input) = some icon
  mode : fs'.fileMode? caller.cwd job.output = some (modeAfter job caller w fs)

theorem exists_leaves (h : convert job caller w fs = (.ok report, fs'))
    (hp : fs.resolve caller.cwd false job.output = .ok p) (hinput : p ∉ fs.trailOf caller.cwd job.input)
    (houtput : p ∉ fs.trailOf caller.cwd (Path.directory job.output)) :
    ∃ icon, Leaves job caller w fs report fs' p icon := by
  obtain ⟨p', icon, hentry, hicon, hreport, hfiles⟩ := exists_put_of_convert h
  have hresolve := Files.resolve_of_moveTarget hentry
  rw [hp, Except.ok.injEq] at hresolve
  subst hresolve
  have hget : ∀ q, fs'.get? q = if q = p then some (.file (modeAfter job caller w fs) icon) else fs.get? q := by
    rw [hfiles]
    exact fun q => Files.get?_put (Files.moveTarget_ne_nil hentry)
  have hfile : fs'.get? p = some (.file (modeAfter job caller w fs) icon) := by rw [hget, if_pos rfl]
  have hsame : ∀ q, q ≠ p → fs'.get? q = fs.get? q := fun q hq => by rw [hget, if_neg hq]
  have hentry' : fs'.moveTarget caller.cwd job.output = .ok p := Files.moveTarget_of_trail hentry houtput hsame
  refine ⟨icon, hreport, hfiles, hentry, hentry', hfile, hsame, ?_, ?_⟩
  · rw [Files.read_of_trail fun q hq => hsame q fun e => hinput (e ▸ hq), hicon]
  · have hleaf := Files.resolve_of_leaf hentry' (by rw [hfile]; rfl)
    simp only [Files.fileMode?, Files.lookup, hleaf, hfile]

/-- What the first run needed, the second one finds. -/
theorem ready_again {icon : Bytes} (h : convert job caller w fs = (.ok report, fs'))
    (hleaves : Leaves job caller w fs report fs' p icon) (hmode : (modeAfter job caller w fs).readOnly = false) :
    Ready job caller fs' p := by
  obtain ⟨t, _, files, hmake, -⟩ := exists_created h
  obtain ⟨before, n, d, -, hr, hd, hpn⟩ := Files.moveTarget_iff.1 hleaves.entry
  obtain ⟨hpath, rfl⟩ := ((w.name fs).resolve_iff hr hd).1 (Files.makeFile_eq hmake).1
  have hmay : fs.mayChange d = .ok () := Files.mayChange_of_makeFile hmake
  refine ⟨⟨icon, hleaves.icon⟩, fun m hm => ?_, hleaves.entryAfter, fun m hm => ?_, ?_, w.name fs, hpath⟩
  · rw [hleaves.mode, Option.some.injEq] at hm
    rwa [← hm]
  · rw [hleaves.file] at hm
    cases hm
  · have hne : d ≠ p := fun e => absurd (congrArg List.length (e.trans hpn)) (by simp)
    rw [hpn, List.tail_cons, Files.mayChange_congr (hleaves.elsewhere d hne), hmay]

/-- A conversion that has succeeded succeeds again with the same report, and leaves the files as
    they are, modes included. This takes an input that does not lead to the output's entry or
    through it, an output that does not lead through its own entry, and an icon that may be
    written to; and that the second run is not refused anything for a reason of its own. -/
theorem a_second_run_changes_nothing (h : convert job caller w fs = (.ok report, fs'))
    (hp : fs.resolve caller.cwd false job.output = .ok p)
    (hinput : p ∉ fs.trailOf caller.cwd job.input) (houtput : p ∉ fs.trailOf caller.cwd (Path.directory job.output))
    (hmode : ∀ m c, fs'.get? p = some (.file m c) → m.readOnly = false)
    (hw : w'.Fair fs' p.tail) : convert job caller w' fs' = (.ok report, fs') := by
  obtain ⟨icon, hleaves⟩ := exists_leaves h hp hinput houtput
  obtain ⟨report', fs'', hagain⟩ := convert_of_ready (ready_again h hleaves (hmode _ _ hleaves.file)) hw
  obtain ⟨p', icon', hp', hicon', hreport', hfiles'⟩ := exists_put_of_convert hagain
  rw [hleaves.entryAfter, Except.ok.injEq] at hp'
  rw [hleaves.icon, Option.some.injEq] at hicon'
  subst hp' hicon'
  have hasked : modeAsked job caller w' fs' = modeAfter job caller w fs := by
    have hfailure : (w'.at 2 fs').failure = none := hw.failure 2
    simp only [modeAsked, modeSeen, Circumstance.look, hfailure, hleaves.mode, Option.getD_some]
  have hsame : fs'' = fs' := by
    rw [hfiles', modeAfter_fixed hasked, hleaves.files, Files.put_put (Files.moveTarget_ne_nil hleaves.entry)]
  rw [hagain, hreport', hleaves.report, hsame]

end

/-- Writes take forty bytes. -/
def slow : Weather := { Weather.calm with taken := fun _ => 40 }

theorem entry_onePixelFiles : onePixelFiles.resolve [] false [98] = .ok [[98]] := by cbv

theorem trailOf_onePixelFiles : onePixelFiles.trailOf [] [97] = [[], [[97]]] ∧
    onePixelFiles.trailOf [] (Path.directory [98]) = [[]] := ⟨by cbv, by cbv⟩

theorem modeAfter_onePixelFiles : modeAfter onePixelJob anyone .calm onePixelFiles = 0o644#12 := by cbv

/-- The icon of one pixel is made twice. -/
theorem a_pixel_is_converted_twice :
    ∃ fs', convert onePixelJob anyone .calm onePixelFiles = (.ok (Report.of onePixelJob 95), fs') ∧
      convert onePixelJob anyone slow fs' = (.ok (Report.of onePixelJob 95), fs') := by
  obtain ⟨fs', hrun⟩ := convert_calm
  have hinput : [[98]] ∉ onePixelFiles.trailOf [] [97] := by
    rw [trailOf_onePixelFiles.1]
    decide
  have houtput : [[98]] ∉ onePixelFiles.trailOf [] (Path.directory [98]) := by
    rw [trailOf_onePixelFiles.2]
    decide
  obtain ⟨icon, hleaves⟩ := exists_leaves hrun entry_onePixelFiles hinput houtput
  have hmode : ∀ m c, fs'.get? [[98]] = some (.file m c) → m.readOnly = false := by
    intro m c hfile
    rw [hleaves.file, modeAfter_onePixelFiles] at hfile
    cases hfile
    rfl
  have hfew : fs'.entries.length < TemporaryName.count := by
    rw [hleaves.files]
    exact Nat.lt_of_le_of_lt Files.length_entries_put (by decide)
  have hfair : slow.Fair fs' [] := fair_of_few (fun _ => rfl) rfl hfew []
  exact ⟨fs', hrun, a_second_run_changes_nothing hrun entry_onePixelFiles hinput houtput hmode hfair⟩

/-! ## An output that leads through itself -/

/-- A link `x` to a directory `d`. -/
def loopFiles : Files := ⟨[([[120]], .link [100]), ([[100]], .dir 0o755#12), ([[97]], .file 0o600#12 onePixel)]⟩

/-- From `a` to `x/../x`. -/
def loopJob : Job := { onePixelJob with output := [120, 47, 46, 46, 47, 120] }

/-- What the first run leaves. -/
def loopAfter : Files := (convert loopJob anyone .calm loopFiles).2

theorem convert_loopFiles : (convert loopJob anyone .calm loopFiles).1 = .ok (Report.of loopJob 95) := by cbv

theorem entry_loopFiles : loopFiles.resolve [] false loopJob.output = .ok [[120]] := by cbv

theorem trailOf_loopFiles : loopFiles.trailOf [] loopJob.input = [[], [[97]]] := by cbv

theorem fileMode?_loopAfter : loopAfter.fileMode? [] [120] = some 0o644#12 := by cbv

theorem convert_loopAfter :
    (convert loopJob anyone .calm loopAfter).1 = .error (.outputUnwritable loopJob.output .notADirectory) := by cbv

/-- The first run replaces the link `x` by the icon, and with it the way to the icon's directory: the
    second run fails, though its input is elsewhere and the icon may be written to. -/
theorem an_output_through_itself_is_lost :
    ∃ fs', convert loopJob anyone .calm loopFiles = (.ok (Report.of loopJob 95), fs') ∧
      loopFiles.resolve [] false loopJob.output = .ok [[120]] ∧ [[120]] ∉ loopFiles.trailOf [] loopJob.input ∧
      fs'.fileMode? [] [120] = some 0o644#12 ∧ Weather.calm.Fair fs' [] ∧
      convert loopJob anyone .calm fs' = (.error (.outputUnwritable loopJob.output .notADirectory), fs') := by
  have hfirst : convert loopJob anyone .calm loopFiles = (.ok (Report.of loopJob 95), loopAfter) :=
    Prod.ext convert_loopFiles rfl
  have hsecond : convert loopJob anyone .calm loopAfter =
      (.error (.outputUnwritable loopJob.output .notADirectory), loopAfter) := by
    have hkept := (failure_changes_nothing loopJob anyone loopAfter).1 .calm _ _ (Prod.ext convert_loopAfter rfl)
    exact Prod.ext convert_loopAfter hkept
  have hfair : Weather.calm.Fair loopAfter [] := fair_of_few (fun _ => rfl) rfl (by cbv) []
  refine ⟨loopAfter, hfirst, entry_loopFiles, ?_, fileMode?_loopAfter, hfair, hsecond⟩
  rw [trailOf_loopFiles]
  decide

end Conversion

end IconMaker
