import IconMaker.Proofs.CommandLine.Grammar
import IconMaker.Proofs.Results
import IconMaker.Run

/-
  IconMaker.Proofs.CommandLine.Finality — which refusals of a command line are final.

  A value that stands alone is taken late, when the next option begins or the arguments end. So a
  line can be refused in two places: at an argument, and then what follows is not looked at
  (`foldlM_of_stopped`), or at the end, for the value that still waits (`read_eq_error_iff`).
  - `refusal_of_settle`: a waiting value is refused for what it is, never for help, the version,
    an unexpected argument or a value that is not needed.
  - `foldlM_lone`: two arguments that are no options always stop the reading.
  - `decisive_arguments_are_final`: so those four outcomes stay whatever is put behind the line,
    and any other one does too or gives way to an unexpected argument.
-/

namespace IconMaker.CommandLine

/-- The outcomes that an argument decides by itself. -/
inductive Decisive : Stop → Prop
  | help (long : Bool) : Decisive (.showHelp long)
  | version : Decisive .showVersion
  | unexpected (a : List Char) : Decisive (.unexpected a)
  | needlessValue (n : Notice) (v : List Char) : Decisive (.needlessValue n v)

/-- The outcomes that a value is to blame for. -/
inductive Refusal : Stop → Prop
  | repeated (o : Opt) : Refusal (.repeated o)
  | noValue (o : Opt) : Refusal (.noValue o)
  | unknownFilter (v : List Char) : Refusal (.unknownFilter v)
  | badSize (v : List Char) (e : SizeError) : Refusal (.badSize v e)
  | brokenText : Refusal .brokenText

/-- The line is refused for this, and so is every line that begins with it: the program says the
    same and does nothing else. -/
def Final (arguments : List Bytes) (s : Stop) : Prop :=
  ∀ more, read (arguments ++ more) = .error s ∧
    ∀ [Png.Writer] host fs, Run.execute host (arguments ++ more) fs = (.ofStop s, fs)

variable {st : State} {f : Flags} {o : Opt} {p : Pending} {v a : Bytes} {s : Stop} {arguments : List Bytes}

/-! ## What a value is refused for -/

theorem Refusal.not_decisive (h : Refusal s) : ¬ Decisive s := by
  intro hd
  cases hd <;> cases h

theorem refusal_of_once {α : Type} {old : Option α} {new : Except Stop α} (hnew : ∀ e, new = .error e → Refusal e)
    (h : once o old new = .error s) : Refusal s := by
  cases old with
  | some x =>
    cases h
    exact .repeated o
  | none =>
    cases hn : new with
    | error e =>
      rw [hn] at h
      cases h
      exact hnew _ hn
    | ok x =>
      rw [hn] at h
      cases h

theorem refusal_of_pathValue (h : pathValue o v = .error s) : Refusal s := by
  unfold pathValue at h
  split at h
  · cases h
    exact .noValue o
  · cases h

theorem refusal_of_filterValue (h : filterValue v = .error s) : Refusal s := by
  unfold filterValue at h
  split at h
  · cases h
  · split at h
    · cases h
      exact .noValue .filter
    · cases h
      exact .unknownFilter _

theorem refusal_of_sizeValue (h : sizeValue v = .error s) : Refusal s := by
  unfold sizeValue at h
  split at h
  · rw [mapError_eq_error_iff] at h
    obtain ⟨e, -, rfl⟩ := h
    exact .badSize _ e
  · cases h
    exact .brokenText

theorem refusal_of_accept (h : accept f o v = .error s) : Refusal s := by
  cases o with
  | input | output | config =>
    simp only [accept, map_eq_error_iff] at h
    exact refusal_of_once (fun _ => refusal_of_pathValue) h
  | filter =>
    simp only [accept, map_eq_error_iff] at h
    exact refusal_of_once (fun _ => refusal_of_filterValue) h
  | size =>
    simp only [accept, map_eq_error_iff] at h
    exact refusal_of_sizeValue h

theorem refusal_of_settle (h : settle f p = .error s) : Refusal s := by
  cases p with
  | none => cases h
  | awaiting o =>
    cases h
    exact .noValue o
  | holding o v => exact refusal_of_accept h

/-! ## Where a line is refused -/

/-- A line is refused at one of its arguments, or at its end for the value that waits. -/
theorem read_eq_error_iff : read arguments = .error s ↔
    arguments.foldlM step .start = .error s ∨
      ∃ st, arguments.foldlM step .start = .ok st ∧ settle st.flags st.pending = .error s :=
  bind_eq_error_iff

theorem foldlM_of_stopped (h : arguments.foldlM step st = .error s) (more : List Bytes) :
    (arguments ++ more).foldlM step st = .error s := by
  rw [List.foldlM_append, h]
  rfl

theorem final_of_stopped (h : arguments.foldlM step .start = .error s) : Final arguments s := by
  intro more
  have hread : read (arguments ++ more) = .error s := read_eq_error_iff.2 (Or.inl (foldlM_of_stopped h more))
  exact ⟨hread, fun _ _ => Run.execute_of_error hread⟩

/-- An argument that is no option is the value that is awaited, or ends the reading. -/
theorem step_lone_cases (ha : Standalone a) (st : State) :
    (∃ o, st.pending = .awaiting o ∧ step st a = .ok { st with pending := .holding o a }) ∨
      step st a = .error (.unexpected (Text.lossy a)) := by
  cases he : st.ended with
  | true =>
    right
    unfold step
    rw [he, if_pos rfl]
  | false =>
    rw [step_standalone he ha]
    unfold loneArgument
    split
    · rename_i o ho
      exact Or.inl ⟨o, ho, by rw [he]⟩
    · exact Or.inr rfl

/-- Of two such arguments the second is not awaited. -/
theorem foldlM_lone (ha : Standalone a) (st : State) : [a, a].foldlM step st = .error (.unexpected (Text.lossy a)) := by
  rw [List.foldlM_cons]
  rcases step_lone_cases ha st with ⟨o, -, hs⟩ | hs
  · rw [hs]
    change [a].foldlM step _ = _
    rw [List.foldlM_cons]
    rcases step_lone_cases ha { st with pending := .holding o a } with ⟨o', ho', -⟩ | hs'
    · cases ho'
    · rw [hs']
      rfl
  · rw [hs]
    rfl

/-! ## The law -/

/-- A line that is refused with help, the version, an unexpected argument or a value that is not
    needed is refused with the same whatever stands behind it. A line that is refused for a value
    is too, unless the value still waited at its end; then two arguments that are no options make
    the second or the first of them the reason. -/
theorem decisive_arguments_are_final (arguments : List Bytes) (s : Stop) (h : read arguments = .error s) :
    (Decisive s → Final arguments s) ∧
    (Final arguments s ∨ ∀ a, Standalone a → read (arguments ++ [a, a]) = .error (.unexpected (Text.lossy a))) := by
  rcases read_eq_error_iff.1 h with hstop | ⟨st, hst, hwaits⟩
  · have hfinal := final_of_stopped hstop
    exact ⟨fun _ => hfinal, Or.inl hfinal⟩
  · refine ⟨fun hd => absurd hd (refusal_of_settle hwaits).not_decisive, Or.inr fun a ha => ?_⟩
    have hstop : (arguments ++ [a, a]).foldlM step .start = .error (.unexpected (Text.lossy a)) := by
      rw [List.foldlM_append, hst]
      exact foldlM_lone ha st
    exact read_eq_error_iff.2 (Or.inl hstop)

/-- A size that is too large, and behind it an argument that is no option. -/
def strayLine : List Bytes := ["--size", "300", "x"].map argument

theorem read_strayLine : read strayLine = .error (.unexpected (Text.lossy (argument "x"))) := rfl

/-- The argument is named, not the size, also in front of a request for help and of broken text.
    Without it the size is named, but not for good. -/
theorem a_stray_argument_is_final :
    read strayLine = .error (.unexpected (Text.lossy (argument "x"))) ∧
    Final strayLine (.unexpected (Text.lossy (argument "x"))) ∧
    read (strayLine ++ [argument "--help", [0xff]]) = .error (.unexpected (Text.lossy (argument "x"))) := by
  have hfinal := (decisive_arguments_are_final strayLine _ read_strayLine).1 (.unexpected _)
  exact ⟨read_strayLine, hfinal, (hfinal _).1⟩

end IconMaker.CommandLine
