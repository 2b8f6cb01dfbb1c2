import IconMaker.Run
import IconMaker.Proofs.Conversion.Output

/-
  IconMaker.Proofs.Run — how a run of the program ends.

  (1) The log. Opening it changes the place that its path leads to and no other one
      (`resolve_openLog`, `get?_openLog`), and so does writing what was reported into it
      (`get?_closeLog`). An icon that was moved there in the meantime is not written to
      (`get?_closeLog_of_full`), since no icon is empty.
  (2) The work between. `perform_eq` is the job that `resolve` makes, converted.
  (3) The ends. A run ends in exactly one of four ways (`every_run_ends_in_one_way`): with the
      icon in its place and one line on standard output, with a text that was asked for, with
      a command line that is refused, or with a failure. Only the first one changes anything
      beside the log.
-/

namespace IconMaker

namespace Run

variable {h : Host} {arguments : List Bytes} {fs : Files} {p : Place} {f : Flags}

/-! ## (1) The log -/

/-- The place of the log, if it can be opened, and the files after that. -/
def openLog (h : Host) (fs : Files) : Option Place × Files :=
  match fs.truncate h.caller h.logPath 0o666#12 with
  | .error _ => (none, fs)
  | .ok (at_, opened) => (some at_, opened)

/-- Writes what was reported into the log, if there is one. -/
def closeLog (log : Option Place) (shown : List Log.Event) (fs : Files) : Files :=
  match log with
  | none => fs
  | some at_ => writeLog fs at_ shown

theorem resolve_openLog (hp : (openLog h fs).1 = some p) : fs.resolve h.caller.cwd true h.logPath = .ok p := by
  unfold openLog at hp
  split at hp
  · cases hp
  · rename_i ht
    cases hp
    exact (Files.truncate_eq ht).1

theorem get?_openLog (hp : (openLog h fs).1 ≠ some p) : (openLog h fs).2.get? p = fs.get? p := by
  unfold openLog at hp ⊢
  split
  · rfl
  · rename_i at_ opened ht
    simp only [ht] at hp
    refine (Files.truncate_eq ht).2.2.2 p fun e => hp ?_
    rw [e]

theorem sameWays_openLog (h : Host) (fs : Files) : fs.SameWays (openLog h fs).2 := by
  unfold openLog
  split
  · exact .refl fs
  · exact Files.sameWays_truncate ‹_›

/-- Either nothing is written, or there is an empty file to write to. -/
theorem closeLog_cases (log : Option Place) (shown : List Log.Event) (fs : Files) :
    closeLog log shown fs = fs ∨
    ∃ at_ m, log = some at_ ∧ fs.get? at_ = some (.file m []) ∧
      closeLog log shown fs = fs.append at_ (Text.utf8 (shown.flatMap Log.Event.line)) := by
  cases log with
  | none => exact Or.inl rfl
  | some at_ =>
    simp only [closeLog, writeLog]
    split
    · rename_i m hm
      exact Or.inr ⟨at_, m, rfl, hm, rfl⟩
    · exact Or.inl rfl

variable {log : Option Place} {shown : List Log.Event}

theorem get?_closeLog (hp : log ≠ some p) : (closeLog log shown fs).get? p = fs.get? p := by
  rcases closeLog_cases log shown fs with e | ⟨at_, m, rfl, hm, e⟩
  · rw [e]
  · have hne : at_ ≠ [] := fun e => by subst e; cases hm
    rw [e, Files.get?_append hm hne, if_neg]
    intro e'
    exact hp (by rw [e'])

theorem get?_closeLog_of_full {m : Mode} {c : Bytes} (hp : fs.get? p = some (.file m c)) (hc : c ≠ []) :
    (closeLog log shown fs).get? p = fs.get? p := by
  rcases closeLog_cases log shown fs with e | ⟨at_, m', rfl, hm, e⟩
  · rw [e]
  · refine get?_closeLog fun e' => hc ?_
    cases e'
    rw [hp] at hm
    cases hm
    rfl

theorem sameWays_closeLog (log : Option Place) (shown : List Log.Event) (fs : Files) :
    fs.SameWays (closeLog log shown fs) := by
  rcases closeLog_cases log shown fs with e | ⟨at_, m, rfl, hm, e⟩
  · rw [e]
    exact .refl fs
  · have hne : at_ ≠ [] := fun e => by subst e; cases hm
    refine .of_leaf (t := at_) (by rw [hm]; rfl) ?_ fun p hp => get?_closeLog fun e' => hp ?_
    · rw [e, Files.get?_append hm hne, if_pos rfl]
      rfl
    · cases e'
      rfl

/-! ## (2) The work -/

theorem perform_eq [Png.Writer] (h : Host) (f : Flags) (fs : Files) :
    (perform h f fs).2 =
      match f.resolve (fs.read h.caller.cwd) with
      | .error e => (.error (.resolving e), fs)
      | .ok job => ((convert job h.caller h.weather fs).1.mapError .converting, (convert job h.caller h.weather fs).2) := by
  unfold perform prepare conclude convert
  cases hr : f.resolve (fs.read h.caller.cwd) with
  | error e => rfl
  | ok job =>
    cases hc : (Conversion.run job h.caller h.weather 0 .reading fs).2.1 with
    | error e => simp [hc, Except.map, Except.mapError]
    | ok n => simp [hc, Except.map, Except.mapError]

/-- What is reported and not filtered out. -/
def shownOf [Png.Writer] (h : Host) (f : Flags) (fs : Files) : List Log.Event :=
  (perform h f fs).1.filter (Log.Filter.ofVariable h.logFilter).reports

theorem execute_of_ok [Png.Writer] (hf : CommandLine.read arguments = .ok f) :
    execute h arguments fs =
      (.ofResult (openLog h fs).1.isSome (shownOf h f (openLog h fs).2) (perform h f (openLog h fs).2).2.1,
        closeLog (openLog h fs).1 (shownOf h f (openLog h fs).2) (perform h f (openLog h fs).2).2.2) := by
  unfold execute openLog
  rw [hf]
  cases ht : fs.truncate h.caller h.logPath 0o666#12 with
  | error e => rfl
  | ok x => rfl

/-! ## (3) The ends -/

/-- The ways in which a run ends. -/
inductive Ending where
  | done
  | told
  | refused
  | failed

/-- Nothing has changed but the log that was opened, if one was, and perhaps the places of
    which `except` holds. -/
def Spares (h : Host) (fs fs' : Files) (except : Place → Prop) : Prop :=
  ∀ p, (openLog h fs).1 ≠ some p → ¬ except p → fs'.get? p = fs.get? p

/-- The job was done: the whole icon is at its output. -/
structure Done [Png.Writer] (h : Host) (fs : Files) (job : Job) (o : Outcome) (fs' : Files) : Prop where
  exitCode : o.exitCode = 0
  icon : ∃ image icon, loadImage job.input ((openLog h fs).2.read h.caller.cwd job.input) = .ok image ∧
    Icon.Shows icon job.sizes (entryImage image job.filter) ∧ Conversion.Delivered job h.caller fs fs' icon ∧
    o.stdout = (Report.of job icon.length).text ++ ['\n']
  spares : Spares h fs fs' fun p => fs.moveTarget h.caller.cwd job.output = .ok p

/-- There is no job, or doing it fails. -/
def Fails [Png.Writer] (h : Host) (f : Flags) (fs : Files) : Prop :=
  (∃ e, f.resolve (fs.read h.caller.cwd) = .error e) ∨
    ∃ job e, f.resolve (fs.read h.caller.cwd) = .ok job ∧ (convert job h.caller h.weather fs).1 = .error e

/-- One of the two reasons to stop that are no errors. -/
def AskedFor (s : CommandLine.Stop) : Prop := s = .showVersion ∨ ∃ long, s = .showHelp long

def Ends [Png.Writer] (h : Host) (arguments : List Bytes) (fs : Files) (o : Outcome) (fs' : Files) : Ending → Prop
  | .done =>
    ∃ f job, CommandLine.read arguments = .ok f ∧ f.resolve ((openLog h fs).2.read h.caller.cwd) = .ok job ∧
      Done h fs job o fs'
  | .told =>
    ∃ s, CommandLine.read arguments = .error s ∧ AskedFor s ∧ o = ⟨0, s.message.toList, [], none⟩ ∧ fs' = fs
  | .refused =>
    ∃ s, CommandLine.read arguments = .error s ∧ ¬ AskedFor s ∧ o.exitCode = 2 ∧ o.stdout = [] ∧ o.log = none ∧
      fs' = fs
  | .failed =>
    ∃ f, CommandLine.read arguments = .ok f ∧ Fails h f (openLog h fs).2 ∧ o.exitCode = 1 ∧ o.stdout = [] ∧
      Spares h fs fs' fun _ => False

namespace Ending

def exitCode : Ending → Nat
  | done | told => 0
  | failed => 1
  | refused => 2

/-- Was the command line accepted? -/
def accepted : Ending → Bool
  | done | failed => true
  | told | refused => false

theorem eq_of_signs {e e' : Ending} (hcode : e.exitCode = e'.exitCode) (hread : e.accepted = e'.accepted) :
    e = e' := by
  cases e <;> cases e' <;> simp [exitCode, accepted] at hcode hread ⊢

end Ending

/-- The exit code, and whether the command line was accepted, tell the ways apart. -/
theorem Ends.signs [Png.Writer] {o : Outcome} {fs' : Files} {e : Ending} (he : Ends h arguments fs o fs' e) :
    o.exitCode = e.exitCode ∧ (CommandLine.read arguments).toBool = e.accepted := by
  cases e with
  | done =>
    obtain ⟨f, job, hf, -, hdone⟩ := he
    rw [hf]
    exact ⟨hdone.exitCode, rfl⟩
  | told =>
    obtain ⟨s, hs, -, rfl, -⟩ := he
    rw [hs]
    exact ⟨rfl, rfl⟩
  | refused =>
    obtain ⟨s, hs, -, hcode, -⟩ := he
    rw [hs]
    exact ⟨hcode, rfl⟩
  | failed =>
    obtain ⟨f, hf, -, hcode, -⟩ := he
    rw [hf]
    exact ⟨hcode, rfl⟩

theorem Ends.unique [Png.Writer] {o : Outcome} {fs' : Files} {e e' : Ending} (he : Ends h arguments fs o fs' e)
    (he' : Ends h arguments fs o fs' e') : e = e' :=
  Ending.eq_of_signs (he.signs.1.symm.trans he'.signs.1) (he.signs.2.symm.trans he'.signs.2)

theorem ends_of_stop [Png.Writer] {s : CommandLine.Stop} (hs : CommandLine.read arguments = .error s) :
    ∃ e, Ends h arguments fs (.ofStop s) fs e := by
  by_cases hasked : AskedFor s
  · refine ⟨.told, s, hs, hasked, ?_, rfl⟩
    rcases hasked with rfl | ⟨long, rfl⟩
    · rfl
    · rfl
  · have hcode : s.exitCode = 2 := by
      cases s with
      | showVersion => exact absurd (Or.inl rfl) hasked
      | showHelp long => exact absurd (Or.inr ⟨long, rfl⟩) hasked
      | _ => rfl
    have ho : Outcome.ofStop s = ⟨2, [], (s.message ++ "\n").toList, none⟩ := by
      rw [Outcome.ofStop, if_neg (by omega), hcode]
    rw [ho]
    exact ⟨.refused, s, hs, hasked, rfl, rfl, rfl, rfl⟩

theorem spares_closeLog (h : Host) (fs : Files) (shown : List Log.Event) :
    Spares h fs (closeLog (openLog h fs).1 shown (openLog h fs).2) fun _ => False := by
  intro p hp _
  rw [get?_closeLog hp, get?_openLog hp]

variable [Png.LawfulWriter]

/-- After the job was done, the log is closed. -/
theorem done_of_replaced {job : Job} {image : Raster} {icon : Bytes} {fs' : Files} {shown : List Log.Event}
    (himage : loadImage job.input ((openLog h fs).2.read h.caller.cwd job.input) = .ok image)
    (hreplaced : Conversion.Replaced job h.caller (openLog h fs).2 icon fs')
    (hshows : Icon.Shows icon job.sizes (entryImage image job.filter)) :
    Done h fs job (.ofResult (openLog h fs).1.isSome shown (.ok (Report.of job icon.length)))
      (closeLog (openLog h fs).1 shown fs') := by
  have hopened := sameWays_openLog h fs
  refine ⟨rfl, ⟨image, icon, himage, hshows, ?_, rfl⟩, ?_⟩
  · refine Conversion.delivered_of_ways hreplaced hopened (sameWays_closeLog _ _ _) fun p hp => ?_
    obtain ⟨m, hfile⟩ := Conversion.get?_output hreplaced hp
    exact get?_closeLog_of_full hfile hshows.ne_nil
  · intro p hp hexcept
    rw [get?_closeLog hp, Conversion.get?_elsewhere hreplaced, get?_openLog hp]
    intro ht
    exact hexcept (Files.moveTarget_eq hopened.symm ht)

theorem ends_of_flags (hf : CommandLine.read arguments = .ok f) :
    ∃ e, Ends h arguments fs (execute h arguments fs).1 (execute h arguments fs).2 e := by
  rw [execute_of_ok hf, perform_eq]
  cases hjob : f.resolve ((openLog h fs).2.read h.caller.cwd) with
  | error e => exact ⟨.failed, f, hf, Or.inl ⟨e, hjob⟩, rfl, rfl, spares_closeLog h fs _⟩
  | ok job =>
    rcases Conversion.convert_cases job h.caller h.weather (openLog h fs).2 with
      ⟨e, hc⟩ | ⟨image, icon, fs', hc, himage, hreplaced, hshows⟩
    · have hfails : Fails h f (openLog h fs).2 := Or.inr ⟨job, e, hjob, by rw [hc]⟩
      simp only [hc]
      exact ⟨.failed, f, hf, hfails, rfl, rfl, spares_closeLog h fs _⟩
    · simp only [hc]
      exact ⟨.done, f, job, hf, hjob, done_of_replaced himage hreplaced hshows⟩

/-- Every run ends in exactly one way. -/
theorem every_run_ends_in_one_way (h : Host) (arguments : List Bytes) (fs : Files) :
    ∃! e, Ends h arguments fs (execute h arguments fs).1 (execute h arguments fs).2 e := by
  have hex : ∃ e, Ends h arguments fs (execute h arguments fs).1 (execute h arguments fs).2 e := by
    cases hread : CommandLine.read arguments with
    | error s =>
      rw [execute_of_error hread]
      exact ends_of_stop hread
    | ok f => exact ends_of_flags hread
  obtain ⟨e, he⟩ := hex
  exact ⟨e, he, fun e' he' => he'.unique he⟩

end Run

end IconMaker
