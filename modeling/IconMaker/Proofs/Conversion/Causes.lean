import IconMaker.Proofs.Conversion.Entries
import IconMaker.Proofs.Conversion.Failure
import IconMaker.Proofs.Results

/-
  IconMaker.Proofs.Conversion.Causes — why a conversion fails.

  `InputCause` and `Cause` list the reasons, each with the error that tells of it: an input that
  is not there, cannot be read or is no image, an output that is seen to be read-only, and a step
  for the output that the operating system refuses (`Refused`). A look at the output that fails is
  no such step: the run goes on as if no file were there, and a read-only file that it would have
  seen is replaced (`an_unseen_file_is_not_spared`). The others of the seven errors have no reason:
  the sizes of a job are right, every size has an entry, and there are not too many.

  - `explained`: at every stage of a run there is a reason for what comes of it.
  - `error_of_cause`: a reason, at whatever step of the run, is what the run ends with.
  - `every_error_has_its_cause`: so errors and reasons correspond, and what is wrong with the
    input comes before everything else, whatever the rest of the job and the output are.
-/

namespace IconMaker.Conversion

/-! ## What a run meets -/

/-- The stage and the files of a run after so many steps. -/
def stateAt [Png.Writer] (job : Job) (caller : Caller) (w : Weather) (fs : Files) : Nat → Stage × Files
  | 0 => (.reading, fs)
  | n + 1 =>
    let x := stateAt job caller w fs n
    advance job caller (w.at n x.2) x.2 x.1

/-- What reading the input gives, which is the first step. -/
def inputOf (job : Job) (caller : Caller) (w : Weather) (fs : Files) : Except IoError Bytes :=
  match w.failure 0 with
  | some e => .error e
  | none => fs.read caller.cwd job.input

/-- What the first look at the output shows, which is the second step. -/
def outputSeen (job : Job) (caller : Caller) (w : Weather) (fs : Files) : Option Mode :=
  (w.at 1 fs).look fs caller.cwd job.output

/-- What the second look shows, right after the first one. -/
def modeSeen (job : Job) (caller : Caller) (w : Weather) (fs : Files) : Option Mode :=
  (w.at 2 fs).look fs caller.cwd job.output

/-- The mode that is asked for: the one that was seen, or the usual one. -/
def modeAsked (job : Job) (caller : Caller) (w : Weather) (fs : Files) : Mode :=
  (modeSeen job caller w fs).getD usualMode

/-- A run leaves its files alone until it makes the temporary file, and then adds this one. -/
theorem alone_stateAt [Png.Writer] (job : Job) (caller : Caller) (w : Weather) (fs : Files) (n : Nat) :
    Alone job caller fs (stateAt job caller w fs n).1 (stateAt job caller w fs n).2 := by
  induction n with
  | zero => rfl
  | succ n ih => exact alone_advance _ ih

/-- A stage asks for something to be done for the output, and is refused. -/
inductive Refused (job : Job) (caller : Caller) (c : Circumstance) (fs : Files) : Stage → IoError → Prop
  | create {frames : List Frame} {m : Mode} {e : IoError} :
      c.meet (fs.makeFile caller (Path.directory job.output) c.name m) = .error e →
      Refused job caller c fs (.creating frames m) e
  | write {t : Place} {rest : Bytes} {e : IoError} : c.failure = some e → Refused job caller c fs (.writing t rest) e
  | sync {t : Place} {e : IoError} : c.failure = some e → Refused job caller c fs (.syncing t) e
  | measure {t : Place} {e : IoError} : c.failure = some e → Refused job caller c fs (.measuring t) e
  | move {t : Place} {n : Nat} {e : IoError} : c.meet (fs.move caller.cwd t job.output) = .error e →
      Refused job caller c fs (.moving t n) e

/-- Step `n` of a run is refused. -/
def RefusedAt [Png.Writer] (job : Job) (caller : Caller) (w : Weather) (fs : Files) (n : Nat) (e : IoError) : Prop :=
  let x := stateAt job caller w fs n
  Refused job caller (w.at n x.2) x.2 x.1 e

/-- The input can be read and is an image. -/
def Decodes (job : Job) (caller : Caller) (w : Weather) (fs : Files) : Prop :=
  ∃ bs image, inputOf job caller w fs = .ok bs ∧ Png.decode bs = some image

/-! ## The causes -/

/-- Why an input cannot be converted, from what reading it gave. -/
inductive InputCause (p : Path) (r : Except IoError Bytes) : ConvertError → Prop
  | notFound : r = .error .notFound → InputCause p r (.inputNotFound p)
  | unreadable {e : IoError} : r = .error e → e ≠ .notFound → InputCause p r (.inputUnreadable p e)
  | undecodable {bs : Bytes} : r = .ok bs → Png.decode bs = none → InputCause p r (.undecodable p)

/-- Why a conversion fails. -/
inductive Cause [Png.Writer] (job : Job) (caller : Caller) (w : Weather) (fs : Files) : ConvertError → Prop
  | input {e : ConvertError} : InputCause job.input (inputOf job caller w fs) e → Cause job caller w fs e
  | readOnly {m : Mode} : Decodes job caller w fs → outputSeen job caller w fs = some m → m.readOnly = true →
      Cause job caller w fs (.outputUnwritable job.output .permissionDenied)
  | refused {n : Nat} {e : IoError} : Decodes job caller w fs → RefusedAt job caller w fs n e →
      Cause job caller w fs (.outputUnwritable job.output e)

variable {job : Job} {caller : Caller} {w : Weather} {fs : Files} {r : Except IoError Bytes} {e : ConvertError}
  {frames : List Frame} {n : Nat}

theorem loadImage_eq_error_iff {p : Path} : loadImage p r = .error e ↔ InputCause p r e := by
  constructor
  · intro h
    unfold loadImage at h
    split at h
    · cases h
      exact .notFound rfl
    · rename_i e' hne
      cases h
      exact .unreadable rfl hne
    · split at h
      · cases h
        exact .undecodable rfl ‹_›
      · cases h
  · intro h
    cases h with
    | notFound hr => rw [hr, loadImage]
    | unreadable hr hne =>
      rw [hr]
      unfold loadImage
      split
      · rename_i he
        cases he
        exact absurd rfl hne
      · rename_i he
        cases he
        rfl
      · rename_i he
        cases he
    | undecodable hr hd =>
      rw [hr, loadImage]
      simp only [hd]

theorem loadImage_eq_ok_iff {p : Path} {image : Raster} :
    loadImage p r = .ok image ↔ ∃ bs, r = .ok bs ∧ Png.decode bs = some image := by
  unfold loadImage
  split
  · simp
  · simp
  · rename_i bs
    cases hd : Png.decode bs <;> simp [hd]

theorem loadImage_onePixel : ∃ image, loadImage [97] (.ok onePixel) = .ok image := by
  have hdecode : (Png.decode onePixel).isSome = true := by cbv
  obtain ⟨image, himage⟩ := Option.isSome_iff_exists.1 hdecode
  exact ⟨image, loadImage_eq_ok_iff.2 ⟨onePixel, rfl, himage⟩⟩

theorem failure_of_meet {α : Type} {c : Circumstance} {x : α} {e : IoError} (h : c.meet (.ok x) = .error e) :
    c.failure = some e := by
  unfold Circumstance.meet at h
  split at h
  · cases h
    assumption
  · cases h

section

variable [Png.Writer]

/-- Making the entries goes wrong only where loading the image does. -/
theorem prepare_eq (job : Job) (r : Except IoError Bytes) : prepare job r =
    (loadImage job.input r).map fun image => job.sizes.sizes.map (entry image job.filter) := by
  unfold prepare
  cases loadImage job.input r with
  | error e => rfl
  | ok image => exact renderFrames_eq image job.filter job.sizes

theorem prepare_eq_error_iff : prepare job r = .error e ↔ InputCause job.input r e := by
  rw [prepare_eq, map_eq_error_iff, loadImage_eq_error_iff]

theorem prepare_eq_ok_iff : prepare job r = .ok frames ↔
    ∃ bs image, r = .ok bs ∧ Png.decode bs = some image ∧ frames = job.sizes.sizes.map (entry image job.filter) := by
  rw [prepare_eq, map_eq_ok_iff]
  simp only [loadImage_eq_ok_iff]
  constructor
  · rintro ⟨image, ⟨bs, hr, hd⟩, rfl⟩
    exact ⟨bs, image, hr, hd, rfl⟩
  · rintro ⟨bs, image, hr, hd, rfl⟩
    exact ⟨image, ⟨bs, hr, hd⟩, rfl⟩

/-- An icon can be made of the entries of a job. -/
theorem exists_encode_of_prepare (h : prepare job r = .ok frames) : ∃ icon, Icon.encode frames = some icon := by
  obtain ⟨bs, image, -, -, rfl⟩ := prepare_eq_ok_iff.1 h
  exact Icon.exists_encode image job.filter job.sizes

theorem decodes_of_prepare (h : prepare job (inputOf job caller w fs) = .ok frames) : Decodes job caller w fs := by
  obtain ⟨bs, image, hr, hd, -⟩ := prepare_eq_ok_iff.1 h
  exact ⟨bs, image, hr, hd⟩

theorem exists_frames (h : Decodes job caller w fs) : ∃ frames, prepare job (inputOf job caller w fs) = .ok frames := by
  obtain ⟨bs, image, hr, hd⟩ := h
  exact ⟨_, prepare_eq_ok_iff.2 ⟨bs, image, hr, hd, rfl⟩⟩

/-! ## The first steps -/

theorem stateAt_one (job : Job) (caller : Caller) (w : Weather) (fs : Files) :
    stateAt job caller w fs 1 = (.afterReading job (inputOf job caller w fs), fs) := rfl

theorem stateAt_one_of_ok (h : prepare job (inputOf job caller w fs) = .ok frames) :
    stateAt job caller w fs 1 = (.examining frames, fs) := by
  rw [stateAt_one, Stage.afterReading, h]

theorem stateAt_two (h : prepare job (inputOf job caller w fs) = .ok frames) :
    stateAt job caller w fs 2 = (.afterExamining job frames (outputSeen job caller w fs), fs) := by
  rw [stateAt, stateAt_one_of_ok h]
  rfl

/-- The first look is passed, or it ends the run. -/
theorem stateAt_two_cases (h : prepare job (inputOf job caller w fs) = .ok frames) :
    stateAt job caller w fs 2 = (.asking frames, fs) ∨
      ∃ m, outputSeen job caller w fs = some m ∧ m.readOnly = true ∧
        stateAt job caller w fs 2 = (.finished (.error (.outputUnwritable job.output .permissionDenied)), fs) := by
  rw [stateAt_two h]
  cases outputSeen job caller w fs with
  | none => exact Or.inl rfl
  | some m =>
    by_cases hm : m.readOnly = true
    · exact Or.inr ⟨m, rfl, hm, by simp only [Stage.afterExamining, if_pos hm]⟩
    · exact Or.inl (by simp only [Stage.afterExamining, if_neg hm])

/-- The second look decides what is asked for. -/
theorem stateAt_three (h : stateAt job caller w fs 2 = (.asking frames, fs)) :
    stateAt job caller w fs 3 = (.creating frames (modeAsked job caller w fs), fs) := by
  rw [stateAt, h]
  rfl

/-! ## Every failure has a cause -/

/-- What is known of a run at a stage after `n` steps. -/
def Explained (job : Job) (caller : Caller) (w : Weather) (fs : Files) (n : Nat) : Stage → Prop
  | .reading => n = 0
  | .examining frames => n = 1 ∧ prepare job (inputOf job caller w fs) = .ok frames
  | .asking frames => n = 2 ∧ prepare job (inputOf job caller w fs) = .ok frames
  | .creating frames m => prepare job (inputOf job caller w fs) = .ok frames ∧ m = modeAsked job caller w fs
  | .writing .. | .syncing _ | .measuring _ | .moving .. => Decodes job caller w fs
  | .discarding _ e | .finished (.error e) => Cause job caller w fs e
  | .finished (.ok _) => True

theorem explained_advance {s : Stage} {fs' : Files} (hx : stateAt job caller w fs n = (s, fs'))
    (h : Explained job caller w fs n s) :
    Explained job caller w fs (n + 1) (advance job caller (w.at n fs') fs' s).1 := by
  -- For an image, a step that is refused is a cause by itself.
  have hrefused : ∀ e, Decodes job caller w fs → Refused job caller (w.at n fs') fs' s e →
      Cause job caller w fs (.outputUnwritable job.output e) := by
    intro e hdec hr
    refine .refused (n := n) hdec ?_
    simp only [RefusedAt, hx]
    exact hr
  cases s with
  | reading =>
    obtain rfl : n = 0 := h
    obtain rfl : fs = fs' := congrArg Prod.snd hx
    show Explained job caller w fs 1 (.afterReading job (inputOf job caller w fs))
    unfold Stage.afterReading
    split
    · exact Cause.input (prepare_eq_error_iff.1 ‹_›)
    · exact ⟨rfl, ‹_›⟩
  | examining frames =>
    obtain ⟨rfl, hp⟩ := h
    have hnext : stateAt job caller w fs 2 = advance job caller (w.at 1 fs') fs' (.examining frames) := by
      rw [stateAt, hx]
    rw [← hnext]
    rcases stateAt_two_cases hp with htwo | ⟨m, hseen, hm, htwo⟩
    · rw [htwo]
      exact ⟨rfl, hp⟩
    · rw [htwo]
      exact Cause.readOnly (decodes_of_prepare hp) hseen hm
  | asking frames =>
    obtain ⟨rfl, hp⟩ := h
    obtain rfl : fs = fs' := by
      have halone := alone_stateAt job caller w fs 2
      rw [hx] at halone
      exact halone.1.symm
    exact ⟨hp, rfl⟩
  | creating frames m =>
    obtain ⟨hp, -⟩ := h
    simp only [advance]
    split
    · exact hrefused _ (decodes_of_prepare hp) (.create ‹_›)
    · obtain ⟨icon, hicon⟩ := exists_encode_of_prepare hp
      simp only [Stage.afterCreating, hicon]
      exact decodes_of_prepare hp
  | writing t rest =>
    simp only [advance]
    split
    · exact hrefused _ h (.write ‹_›)
    · by_cases hr : rest = []
      · rw [if_pos hr]
        exact h
      · rw [if_neg hr]
        exact h
  | syncing t =>
    simp only [advance]
    split
    · exact hrefused _ h (.sync (failure_of_meet ‹_›))
    · exact h
  | measuring t =>
    simp only [advance]
    split
    · exact hrefused _ h (.measure (failure_of_meet ‹_›))
    · exact h
  | moving t bytes =>
    simp only [advance]
    split
    · exact hrefused _ h (.move ‹_›)
    · exact trivial
  | discarding t e => exact h
  | finished result => cases result <;> exact h

theorem explained (job : Job) (caller : Caller) (w : Weather) (fs : Files) (n : Nat) :
    Explained job caller w fs n (stateAt job caller w fs n).1 := by
  induction n with
  | zero => exact rfl
  | succ n ih => exact explained_advance rfl ih

/-! ## The result -/

/-- A run from any of its states on has the result of the whole run. -/
theorem run_stateAt (job : Job) (caller : Caller) (w : Weather) (fs : Files) (n : Nat) :
    (run job caller w n (stateAt job caller w fs n).1 (stateAt job caller w fs n).2).2 =
      (run job caller w 0 .reading fs).2 := by
  induction n with
  | zero => rfl
  | succ n ih =>
    rw [← ih, stateAt]
    generalize stateAt job caller w fs n = x
    obtain ⟨s, fs'⟩ := x
    conv => rhs; rw [run]
    split
    · rename_i r hr
      cases s with
      | finished r' =>
        cases hr
        rw [run]
        rfl
      | _ => cases hr
    · rfl

theorem convert_eq_of_finished {r : Except ConvertError Nat} (h : (stateAt job caller w fs n).1 = .finished r) :
    convert job caller w fs = (r.map (Report.of job), (stateAt job caller w fs n).2) := by
  have hrun : (run job caller w n (.finished r) (stateAt job caller w fs n).2).2 =
      (r, (stateAt job caller w fs n).2) := by
    rw [run]
    rfl
  rw [← h, run_stateAt] at hrun
  simp only [convert, hrun]

theorem convert_of_finished {r : Except ConvertError Nat} (h : (stateAt job caller w fs n).1 = .finished r) :
    (convert job caller w fs).1 = r.map (Report.of job) := congrArg Prod.fst (convert_eq_of_finished h)

theorem error_of_finished (h : (stateAt job caller w fs n).1 = .finished (.error e)) :
    (convert job caller w fs).1 = .error e := convert_of_finished h

/-- Every run comes to an end. -/
theorem exists_finished (job : Job) (caller : Caller) (w : Weather) (fs : Files) :
    ∃ n r, (stateAt job caller w fs n).1 = .finished r := by
  have hfrom : ∀ k s fs', stateAt job caller w fs k = (s, fs') →
      ∃ n r, (stateAt job caller w fs n).1 = .finished r := by
    intro k s fs'
    fun_induction run job caller w k s fs' with
    | case1 k s fs' r hr =>
      intro hk
      cases s with
      | finished r' => exact ⟨k, r', congrArg Prod.fst hk⟩
      | _ => cases hr
    | case2 k s fs' hr x y ih =>
      intro hk
      exact ih (by rw [stateAt, hk])
  exact hfrom 0 _ _ rfl

theorem cause_of_error (h : (convert job caller w fs).1 = .error e) : Cause job caller w fs e := by
  obtain ⟨n, r, hn⟩ := exists_finished job caller w fs
  rw [convert_of_finished hn] at h
  have hexplained := explained job caller w fs n
  rw [hn] at hexplained
  cases r with
  | ok bytes => cases h
  | error e' =>
    cases h
    exact hexplained

/-- What is discarded ends with its cause. -/
theorem convert_of_discarding {t : Place} (h : (stateAt job caller w fs n).1 = .discarding t e) :
    (convert job caller w fs).1 = .error e := by
  refine error_of_finished (n := n + 1) ?_
  rw [stateAt, h]
  rfl

theorem error_of_refused {e : IoError} (h : RefusedAt job caller w fs n e) :
    (convert job caller w fs).1 = .error (.outputUnwritable job.output e) := by
  unfold RefusedAt at h
  cases hx : stateAt job caller w fs n with
  | mk s fs' =>
    rw [hx] at h
    have hnext : stateAt job caller w fs (n + 1) = advance job caller (w.at n fs') fs' s := by rw [stateAt, hx]
    cases h with
    | create hc =>
      refine error_of_finished (n := n + 1) ?_
      rw [hnext]
      simp only [advance, hc]
    | @write t rest e hc =>
      refine convert_of_discarding (n := n + 1) (t := t) ?_
      rw [hnext]
      simp only [advance, hc]
      rfl
    | @sync t e hc =>
      refine convert_of_discarding (n := n + 1) (t := t) ?_
      rw [hnext]
      simp only [advance, Circumstance.meet, hc]
      rfl
    | @measure t e hc =>
      refine convert_of_discarding (n := n + 1) (t := t) ?_
      rw [hnext]
      simp only [advance, Circumstance.meet, hc]
      rfl
    | @move t bytes e hc =>
      refine convert_of_discarding (n := n + 1) (t := t) ?_
      rw [hnext]
      simp only [advance, hc]
      rfl

theorem error_of_cause (h : Cause job caller w fs e) : (convert job caller w fs).1 = .error e := by
  cases h with
  | input hi =>
    refine error_of_finished (n := 1) ?_
    rw [stateAt_one, Stage.afterReading, prepare_eq_error_iff.2 hi]
  | readOnly hdec hseen hm =>
    obtain ⟨frames, hp⟩ := exists_frames hdec
    refine error_of_finished (n := 2) ?_
    rw [stateAt_two hp, hseen]
    simp only [Stage.afterExamining, if_pos hm]
  | refused _ hr => exact error_of_refused hr

/-! ## Classification -/

/-- The run comes to its look at the output, and after that only the output can be at fault. -/
structure PassesInput (job : Job) (caller : Caller) (w : Weather) (fs : Files) : Prop where
  looks : ∃ frames, stateAt job caller w fs 1 = (.examining frames, fs)
  blames : ∀ e, (convert job caller w fs).1 = .error e → ∃ c, e = .outputUnwritable job.output c

theorem passesInput_of_decodes (h : Decodes job caller w fs) : PassesInput job caller w fs := by
  obtain ⟨frames, hp⟩ := exists_frames h
  refine ⟨⟨frames, stateAt_one_of_ok hp⟩, ?_⟩
  intro e he
  cases cause_of_error he with
  | input hi =>
    rw [prepare_eq_error_iff.2 hi] at hp
    cases hp
  | readOnly => exact ⟨_, rfl⟩
  | refused => exact ⟨_, rfl⟩

/-- Either there is something wrong with the input or it is an image. -/
theorem input_cases (job : Job) (caller : Caller) (w : Weather) (fs : Files) :
    (∃ e, InputCause job.input (inputOf job caller w fs) e) ∨ Decodes job caller w fs := by
  cases hp : prepare job (inputOf job caller w fs) with
  | error e => exact Or.inl ⟨e, prepare_eq_error_iff.1 hp⟩
  | ok frames => exact Or.inr (decodes_of_prepare hp)

/-- A conversion fails with an error exactly if there is that cause for it, so with none of the
    three that have no cause. Two conversions that read the same fail alike or both go on to the
    output, whatever else is different. -/
theorem every_error_has_its_cause (job : Job) (caller : Caller) (w : Weather) (fs : Files) :
    (∀ e, (convert job caller w fs).1 = .error e ↔ Cause job caller w fs e) ∧
    (∀ e, (convert job caller w fs).1 = .error e → (∀ c, e ≠ .badSizes c) ∧ (∀ s, e ≠ .noFrame s) ∧ e ≠ .noIcon) ∧
    ∀ job' caller' w' fs', job'.input = job.input → inputOf job' caller' w' fs' = inputOf job caller w fs →
      (∃ e, InputCause job.input (inputOf job caller w fs) e ∧
        (convert job caller w fs).1 = .error e ∧ (convert job' caller' w' fs').1 = .error e) ∨
      PassesInput job caller w fs ∧ PassesInput job' caller' w' fs' := by
  refine ⟨fun e => ⟨cause_of_error, error_of_cause⟩, ?_, ?_⟩
  · intro e he
    cases cause_of_error he with
    | input hi => cases hi <;> simp
    | readOnly => simp
    | refused => simp
  · intro job' caller' w' fs' hinput hread
    rcases input_cases job caller w fs with ⟨e, hi⟩ | hdec
    · have hi' : InputCause job'.input (inputOf job' caller' w' fs') e := by rwa [hinput, hread]
      exact Or.inl ⟨e, hi, error_of_cause (.input hi), error_of_cause (.input hi')⟩
    · have hdec' : Decodes job' caller' w' fs' := by
        unfold Decodes
        rwa [hread]
      exact Or.inr ⟨passesInput_of_decodes hdec, passesInput_of_decodes hdec'⟩

end

/-- The same input, another output and another filter. -/
def secondJob : Job := { onePixelJob with output := [99], filter := .gaussian }

/-- A disk that becomes full is the cause of one failure. Another job with the input of the one
    that fails gets past it too. -/
theorem a_full_disk_is_a_cause :
    Cause onePixelJob anyone fullDisk onePixelFiles (.outputUnwritable [98] (.other 28)) ∧
    secondJob.input = onePixelJob.input ∧
    inputOf secondJob anyone .calm onePixelFiles = inputOf onePixelJob anyone fullDisk onePixelFiles ∧
    PassesInput onePixelJob anyone fullDisk onePixelFiles ∧ PassesInput secondJob anyone .calm onePixelFiles := by
  have hfails : (convert onePixelJob anyone fullDisk onePixelFiles).1 = .error (.outputUnwritable [98] (.other 28)) :=
    congrArg Prod.fst convert_fullDisk
  have hread : inputOf secondJob anyone .calm onePixelFiles = inputOf onePixelJob anyone fullDisk onePixelFiles := rfl
  obtain ⟨hcause, -, halike⟩ := every_error_has_its_cause onePixelJob anyone fullDisk onePixelFiles
  refine ⟨(hcause _).1 hfails, rfl, hread, ?_⟩
  rcases halike secondJob anyone .calm onePixelFiles rfl hread with ⟨e, hi, he, -⟩ | h
  · rw [hfails] at he
    cases he
    cases hi
  · exact h

/-- Both looks at the output fail. -/
def blind : Weather := { Weather.calm with failure := fun k => if k = 1 ∨ k = 2 then some (.other 5) else none }

/-- The files of before, with a file at `b` that nobody may write to. -/
def guardedFiles : Files := ⟨[([[98]], .file 0o444#12 [1, 2]), ([[97]], .file 0o600#12 onePixel)]⟩

/-- The output is a read-only file, and the input an image; but the looks at the output fail, and so
    the file is replaced. -/
theorem an_unseen_file_is_not_spared :
    Decodes onePixelJob anyone blind guardedFiles ∧ guardedFiles.fileMode? [] [98] = some 0o444#12 ∧
      Mode.readOnly 0o444#12 = true ∧ outputSeen onePixelJob anyone blind guardedFiles = none ∧
      (convert onePixelJob anyone blind guardedFiles).1 = .ok (Report.of onePixelJob 95) ∧
      (convert onePixelJob anyone blind guardedFiles).2.fileMode? [] [98] = some 0o644#12 := by
  have hdecodes : Decodes onePixelJob anyone blind guardedFiles := by
    obtain ⟨image, himage⟩ := loadImage_onePixel
    have hread : inputOf onePixelJob anyone blind guardedFiles = .ok onePixel := by cbv
    obtain ⟨bs, hbs, hdecode⟩ := loadImage_eq_ok_iff.1 himage
    cases hbs
    exact ⟨onePixel, image, hread, hdecode⟩
  exact ⟨hdecodes, by cbv, by decide, by cbv, by cbv, by cbv⟩

end IconMaker.Conversion
