import IconMaker.Proofs.CommandLine.Grammar
import IconMaker.Proofs.Settings.Layers
import IconMaker.Proofs.Settings.Written

/-
  IconMaker.Proofs.Settings.Values — a value means the same on the command line and in a file.

  Sizes and filters can be given in two places that have a reader each. Both readers take the
  values one after another, and what each makes of one value comes from the same text:
  - `read_saying`: arguments `--name=V` for one option are taken as their values are.
  - `parse_sizes` / `parse_filter`: a document with one line is read as its value is, in any
    notation of it.
  - `line_and_file_agree`: so both succeed with the same result, or fail for the same text, the
    first one that is wrong, and for the same reason.
-/

namespace IconMaker.CommandLine

/-- `--name=V` for a value that is a text. -/
def Opt.saying (o : Opt) (t : List Char) : Bytes := o.long ++ equals :: Text.utf8 t

/-! ## On the command line -/

variable {f : Flags} {o : Opt} {t : List Char} {ts : List (List Char)}

theorem step_saying (f : Flags) (o : Opt) (t : List Char) : step ⟨f, .none, false⟩ (o.saying t) =
    (accept f o (Text.utf8 t)).map fun f' => ⟨f', .none, false⟩ := by
  refine (step_name rfl o (some (Text.utf8 t))).trans ?_
  change (accept f o (Text.utf8 t) >>= _) = _
  cases accept f o (Text.utf8 t) <;> rfl

theorem foldlM_saying (f : Flags) (o : Opt) (ts : List (List Char)) :
    (ts.map o.saying).foldlM step ⟨f, .none, false⟩ =
      (acceptAll f (occurrences o (ts.map Text.utf8))).map fun f' => ⟨f', .none, false⟩ := by
  induction ts generalizing f with
  | nil => rfl
  | cons t ts ih =>
    rw [List.map_cons, List.foldlM_cons, step_saying]
    change _ = (acceptAll f ((o, Text.utf8 t) :: occurrences o (ts.map Text.utf8))).map _
    rw [acceptAll_cons]
    cases accept f o (Text.utf8 t) with
    | error e => rfl
    | ok f' => exact ih f'

/-- Nothing but the values decides what becomes of such a line. -/
theorem read_saying (o : Opt) (ts : List (List Char)) :
    read (ts.map o.saying) = acceptAll .empty (occurrences o (ts.map Text.utf8)) := by
  unfold read State.start
  rw [foldlM_saying]
  cases acceptAll .empty (occurrences o (ts.map Text.utf8)) <;> rfl

theorem sizeValue_utf8 (t : List Char) : sizeValue (Text.utf8 t) = (Size.parse t).mapError (.badSize t) := by
  rw [sizeValue, Text.text?_utf8]

theorem exists_filterValue_error (h : Filter.ofName? t = none) : ∃ s, filterValue (Text.utf8 t) = .error s := by
  simp only [filterValue, Text.text?_utf8, Option.bind_some, h]
  by_cases ht : Text.utf8 t = []
  · exact ⟨_, if_pos ht⟩
  · exact ⟨_, if_neg ht⟩

theorem acceptAll_sizes (f : Flags) (ts : List (List Char)) :
    acceptAll f (occurrences .size (ts.map Text.utf8)) =
      (ts.mapM fun t => (Size.parse t).mapError (Stop.badSize t)).map fun ns => { f with sizes := f.sizes ++ ns } := by
  induction ts generalizing f with
  | nil => simp [acceptAll, occurrences, Except.map, pure, Except.pure]
  | cons t ts ih =>
    change acceptAll f ((.size, Text.utf8 t) :: occurrences .size (ts.map Text.utf8)) = _
    rw [acceptAll_cons, accept, sizeValue_utf8, List.mapM_cons]
    cases (Size.parse t).mapError (Stop.badSize t) with
    | error e => rfl
    | ok n =>
      change acceptAll { f with sizes := f.sizes ++ [n] } _ = _
      rw [ih]
      cases ts.mapM fun t => (Size.parse t).mapError (Stop.badSize t) with
      | error e => rfl
      | ok ns => simp [Except.map, bind, Except.bind, pure, Except.pure]

end IconMaker.CommandLine

namespace IconMaker.Settings

open Toml

/-! ## In a file -/

/-- A text that gives this value to a key, and has nothing else but comments and empty lines. -/
def GivesOnly (ρ : Rules) (text name : List Char) (v : Value) : Prop :=
  ∃ s k, Marked text s ∧ Lines ρ s [.pair [] k v] ∧ k.name = name

/-- A value that means the same size as a text: the text as a string, or the number that it is
    the decimal of. -/
inductive MeansText : Value → List Char → Prop
  | string {m : Mark} {t : List Char} : MeansText (.scalar m (.string t)) t
  | number {m : Mark} {n : Nat} : n < Size.maxNumber → MeansText (.scalar m (.integer n)) (Nat.toDigits 10 n)

variable {ρ : Rules} {text name t u : List Char} {ts : List (List Char)} {v : Value} {vs : List Value} {m : Mark}
  {ns : List Size} {e : SizeError}

theorem MeansText.sizeOf_eq (h : MeansText v t) : sizeOf v = (Size.parse t).mapError .badSize := by
  cases h with
  | string => exact sizeOf_text _ _
  | number hn => rw [sizeOf_edge _ hn, Size.parse_digits hn]

theorem mapM_sizeOf_eq (h : List.Forall₂ MeansText vs ts) :
    vs.mapM sizeOf = ts.mapM fun t => (Size.parse t).mapError Offence.badSize := by
  induction h with
  | nil => rfl
  | cons hv _ ih => rw [List.mapM_cons, List.mapM_cons, hv.sizeOf_eq, ih]

theorem isFlat_of_texts (h : List.Forall₂ MeansText vs ts) : IsFlat (.array m vs) := by
  refine Or.inr ⟨m, vs, rfl, ?_⟩
  induction h with
  | nil => simp
  | cons hv _ ih =>
    rw [List.forall_mem_cons]
    refine ⟨?_, ih⟩
    cases hv with
    | string | number => exact ⟨_, _, rfl, by simp⟩

theorem parse_of_givesOnly (h : GivesOnly ρ text name v) (hv : IsFlat v) : ∃ k, k.name = name ∧
    parse text = told text ((withEntry empty k v).mapError fun r => (r.1, r.2.getD k.mark)) := by
  obtain ⟨s, k, hmark, hlines, hname⟩ := h
  have hflat : Lines (Rules.limited true) s [.pair [] k v] := by
    refine lines_of_flat hlines ?_
    intro x hx
    exact ⟨k, v, List.mem_singleton.1 hx, hv⟩
  have hdoc : Document (Rules.limited true) text [(k, v)] :=
    ⟨s, _, hmark, hflat, builds_of_nodup [] [(k, v)] (List.nodup_singleton _)⟩
  refine ⟨k, hname, ?_⟩
  rw [parse_of_entries (parse_of_document hdoc), ofEntries, List.foldlM_cons]
  cases withEntry empty k v <;> rfl

/-- A document with nothing but sizes. What is wrong with an element is reported at the array. -/
theorem parse_sizes (h : GivesOnly ρ text "sizes".toList (.array m vs)) (hvs : List.Forall₂ MeansText vs ts) :
    parse text = ((ts.mapM fun t => (Size.parse t).mapError Offence.badSize).mapError fun e =>
      .offence e (Text.byteCount text - m)).map fun ns => { empty with sizes := some ns } := by
  obtain ⟨k, hk, hparse⟩ := parse_of_givesOnly h (isFlat_of_texts hvs)
  rw [hparse, withEntry_sizes _ _ hk, sizesOf_listed .array, mapM_sizeOf_eq hvs]
  cases ts.mapM fun t => (Size.parse t).mapError Offence.badSize <;> rfl

/-- A document with nothing but a filter's name. -/
theorem parse_filter (h : GivesOnly ρ text "filter".toList (.scalar m (.string u))) :
    parse text = match Filter.ofName? u with
      | some x => .ok { empty with filter := some x }
      | none => .error (.offence (.unknownFilter u) (Text.byteCount text - m)) := by
  obtain ⟨k, hk, hparse⟩ := parse_of_givesOnly h (Or.inl ⟨m, _, rfl, by simp⟩)
  rw [hparse, withEntry_filter _ _ hk, filterOf, filterNamed]
  cases Filter.ofName? u <;> rfl

/-! ## The same in both -/

/-- The texts are these sizes. -/
def AreSizes (ts : List (List Char)) (ns : List Size) : Prop := List.Forall₂ (fun t n => Size.parse t = .ok n) ts ns

/-- The first of the texts that is no size, and what is wrong with it. -/
def FirstWrong (ts : List (List Char)) (t : List Char) (e : SizeError) : Prop :=
  ∃ before after, ts = before ++ t :: after ∧ (∀ u ∈ before, ∃ n, Size.parse u = .ok n) ∧ Size.parse t = .error e

theorem areSizes_or_firstWrong (ts : List (List Char)) : (∃ ns, AreSizes ts ns) ∨ ∃ t e, FirstWrong ts t e := by
  cases h : ts.mapM Size.parse with
  | ok ns => exact Or.inl ⟨ns, mapM_eq_ok_iff.1 h⟩
  | error e =>
    obtain ⟨before, t, after, hts, hbefore, ht⟩ := mapM_eq_error_iff.1 h
    exact Or.inr ⟨t, e, before, after, hts, hbefore, ht⟩

section Wrapped

variable {ε : Type} {wrap : List Char → SizeError → ε}

theorem mapM_of_areSizes (h : AreSizes ts ns) : (ts.mapM fun t => (Size.parse t).mapError (wrap t)) = .ok ns := by
  rw [mapM_eq_ok_iff]
  refine h.imp ?_
  intro t n ht
  rw [ht]
  rfl

theorem mapM_of_firstWrong (h : FirstWrong ts t e) :
    (ts.mapM fun t => (Size.parse t).mapError (wrap t)) = .error (wrap t e) := by
  obtain ⟨before, after, hts, hbefore, ht⟩ := h
  rw [mapM_eq_error_iff]
  refine ⟨before, t, after, hts, ?_, by rw [ht]; rfl⟩
  intro u hu
  obtain ⟨n, hn⟩ := hbefore u hu
  exact ⟨n, by rw [hn]; rfl⟩

end Wrapped

/-- The job that only says which sizes there are, or what is wrong with the list. -/
def jobOfSizes (ns : List Size) : Except ResolveError Job :=
  match SizeList.ofList ns with
  | .ok l => .ok ⟨defaultInput, defaultOutput, l, Filter.default⟩
  | .error e => .error (.badSizes e)

/-- Both are read as these sizes, and the same comes of it. -/
structure SameSizes (ts : List (List Char)) (text : List Char) (ns : List Size) : Prop where
  sizes : AreSizes ts ns
  line : CommandLine.read (ts.map CommandLine.Opt.size.saying) = .ok { Flags.empty with sizes := ns }
  file : parse text = .ok { empty with sizes := some ns }
  lineJob : ∀ read, Flags.resolve { Flags.empty with sizes := ns } read = jobOfSizes ns
  fileJob : ∀ p read, read p = .ok (Text.utf8 text) →
    Flags.resolve { Flags.empty with config := some p } read = jobOfSizes ns

/-- Both are refused for this text. -/
structure SameFault (ts : List (List Char)) (text t : List Char) (e : SizeError) : Prop where
  first : FirstWrong ts t e
  line : CommandLine.read (ts.map CommandLine.Opt.size.saying) = .error (.badSize t e)
  file : ∃ offset, parse text = .error (.offence (.badSize e) offset)

/-- Both are read as one filter, or refused. -/
def SameFilter (u text : List Char) : Prop :=
  (∃ x : Filter, x.name.toList = u ∧
    CommandLine.read [CommandLine.Opt.filter.saying u] = .ok { Flags.empty with filter := some x } ∧
    parse text = .ok { empty with filter := some x }) ∨
  (∀ x : Filter, x.name.toList ≠ u) ∧ (∃ s, CommandLine.read [CommandLine.Opt.filter.saying u] = .error s) ∧
    ∃ offset, parse text = .error (.offence (.unknownFilter u) offset)

theorem read_sizes (ts : List (List Char)) : CommandLine.read (ts.map CommandLine.Opt.size.saying) =
    (ts.mapM fun t => (Size.parse t).mapError (CommandLine.Stop.badSize t)).map fun ns =>
      { Flags.empty with sizes := ns } := by
  rw [CommandLine.read_saying, CommandLine.acceptAll_sizes]
  rfl

theorem job_of_sizes (ns : List Size) : (job { empty with sizes := some ns }).mapError .badSizes = jobOfSizes ns := by
  simp only [job, sizeList, jobOfSizes]
  cases SizeList.ofList ns <;> rfl

theorem resolve_of_sizes (h : ns ≠ []) (read : Path → Except IoError Bytes) :
    Flags.resolve { Flags.empty with sizes := ns } read = jobOfSizes ns := by
  have hover : empty.overriddenBy { Flags.empty with sizes := ns } = { empty with sizes := some ns } := by
    simp only [overriddenBy, if_neg h]
    rfl
  rw [resolve_of_loaded (.none rfl), hover, job_of_sizes]

theorem resolve_of_file {s : Settings} {p : Path} {read : Path → Except IoError Bytes} (hs : parse text = .ok s)
    (hread : read p = .ok (Text.utf8 text)) :
    Flags.resolve { Flags.empty with config := some p } read = s.job.mapError .badSizes := by
  rw [resolve_of_loaded (.file rfl hread hs)]
  rfl

theorem sameSizes_of_areSizes (hts : ts ≠ []) (hvs : List.Forall₂ MeansText vs ts)
    (h : GivesOnly ρ text "sizes".toList (.array m vs)) (hns : AreSizes ts ns) : SameSizes ts text ns := by
  have hfile : parse text = .ok { empty with sizes := some ns } := by
    rw [parse_sizes h hvs, mapM_of_areSizes hns]
    rfl
  have hne : ns ≠ [] := by
    intro hnil
    rw [hnil] at hns
    exact hts (List.forall₂_nil_right_iff.1 hns)
  refine ⟨hns, ?_, hfile, resolve_of_sizes hne, ?_⟩
  · rw [read_sizes, mapM_of_areSizes hns]
    rfl
  · intro p read hread
    rw [resolve_of_file hfile hread, job_of_sizes]

theorem sameFault_of_firstWrong (hvs : List.Forall₂ MeansText vs ts)
    (h : GivesOnly ρ text "sizes".toList (.array m vs)) (ht : FirstWrong ts t e) : SameFault ts text t e := by
  refine ⟨ht, ?_, Text.byteCount text - m, ?_⟩
  · rw [read_sizes, mapM_of_firstWrong ht]
    rfl
  · rw [parse_sizes h hvs, mapM_of_firstWrong ht]
    rfl

theorem read_filter (u : List Char) : CommandLine.read [CommandLine.Opt.filter.saying u] =
    (CommandLine.filterValue (Text.utf8 u)).map fun x => { Flags.empty with filter := some x } := by
  refine (CommandLine.read_saying .filter [u]).trans ?_
  change (CommandLine.acceptAll .empty ((.filter, Text.utf8 u) :: [])) = _
  rw [CommandLine.acceptAll_cons, CommandLine.accept]
  cases CommandLine.filterValue (Text.utf8 u) <;> rfl

theorem sameFilter_of_givesOnly (h : GivesOnly ρ text "filter".toList (.scalar m (.string u))) : SameFilter u text := by
  have hfile := parse_filter h
  cases hx : Filter.ofName? u with
  | some x =>
    have hname : x.name.toList = u := CommandLine.ofName?_eq_some_iff.1 hx
    refine Or.inl ⟨x, hname, ?_, by rw [hfile, hx]⟩
    rw [read_filter, CommandLine.filterValue_eq_ok_iff.2 (by rw [hname])]
    rfl
  | none =>
    have hname : ∀ x : Filter, x.name.toList ≠ u := by
      intro x hname
      rw [CommandLine.ofName?_eq_some_iff.2 hname] at hx
      cases hx
    obtain ⟨s, hs⟩ := CommandLine.exists_filterValue_error hx
    refine Or.inr ⟨hname, ⟨s, ?_⟩, _, by rw [hfile, hx]⟩
    rw [read_filter, hs]
    rfl

/-- Sizes and filters are the same for both readers. A list of sizes is accepted by both, as the
    same list from which the same job comes or the same error, or it is refused by both because
    of the first text that is no size and for the same reason. A filter is accepted by both or by
    neither. -/
theorem line_and_file_agree (ρ : Rules) :
    (∀ ts text m vs, ts ≠ [] → List.Forall₂ MeansText vs ts → GivesOnly ρ text "sizes".toList (.array m vs) →
      (∃ ns, SameSizes ts text ns) ∨ ∃ t e, SameFault ts text t e) ∧
    (∀ u text m, GivesOnly ρ text "filter".toList (.scalar m (.string u)) → SameFilter u text) := by
  constructor
  · intro ts text m vs hts hvs h
    rcases areSizes_or_firstWrong ts with ⟨ns, hns⟩ | ⟨t, e, ht⟩
    · exact Or.inl ⟨ns, sameSizes_of_areSizes hts hvs h hns⟩
    · exact Or.inr ⟨t, e, sameFault_of_firstWrong hvs h ht⟩
  · intro u text m h
    exact sameFilter_of_givesOnly h

def sizesLine : List Char := ['s', 'i', 'z', 'e', 's', '=', '[', '1', '6', ',', '\'', '0', '\'', ']']

def filterLine : List Char := ['f', 'i', 'l', 't', 'e', 'r', '=', '\'', '\'']

/-- A number and a text that is no size, and a filter without a name. -/
theorem a_zero_is_refused_by_both :
    List.Forall₂ MeansText [.scalar 7 (.integer 16), .scalar 4 (.string ['0'])] [['1', '6'], ['0']] ∧
    GivesOnly (Rules.limited false) sizesLine "sizes".toList
      (.array 8 [.scalar 7 (.integer 16), .scalar 4 (.string ['0'])]) ∧
    SameFault [['1', '6'], ['0']] sizesLine ['0'] .zero ∧
    GivesOnly (Rules.limited false) filterLine "filter".toList (.scalar 2 (.string [])) ∧
    SameFilter [] filterLine := by
  have hmeans : List.Forall₂ MeansText [.scalar 7 (.integer 16), .scalar 4 (.string ['0'])] [['1', '6'], ['0']] :=
    .cons (.number (n := 16) (by decide)) (.cons .string .nil)
  have hnumber : ScalarAt (Rules.limited false) (sizesLine.drop 7) (.integer 16) (sizesLine.drop 9) :=
    .plain (.number (.integer .none (.digits (by decide) (.more rfl (.one rfl))) (by decide)))
  have htext : ScalarAt (Rules.limited false) (sizesLine.drop 10) (.string ['0']) [']'] :=
    .string (.literal (.plain rfl (by decide) (by simp) (.close _)))
  have harray : ValueAt (Rules.limited false) maxDepth (sizesLine.drop 6)
      (.array 8 [.scalar 7 (.integer 16), .scalar 4 (.string ['0'])]) [] :=
    .array (.more (.done _) (.scalar hnumber) (.done _) (.last (.done _) (.scalar htext) (.done _)))
  have hsizes : GivesOnly (Rules.limited false) sizesLine "sizes".toList
      (.array 8 [.scalar 7 (.integer 16), .scalar 4 (.string ['0'])]) :=
    ⟨_, _, Or.inl rfl, lines_of_value "sizes".toList (by decide) (List.all_eq_true.1 rfl) (by decide) harray, rfl⟩
  have hempty : ValueAt (Rules.limited false) maxDepth (filterLine.drop 7) (.scalar 2 (.string [])) [] :=
    .scalar (.string (.literal (.close [])))
  have hfilter : GivesOnly (Rules.limited false) filterLine "filter".toList (.scalar 2 (.string [])) :=
    ⟨_, _, Or.inl rfl, lines_of_value "filter".toList (by decide) (List.all_eq_true.1 rfl) (by decide) hempty, rfl⟩
  obtain ⟨hagree, hagree'⟩ := line_and_file_agree (Rules.limited false)
  refine ⟨hmeans, hsizes, ?_, hfilter, hagree' _ _ _ hfilter⟩
  -- which of the two it is can be seen from what the command line gives
  have hline : CommandLine.read ([['1', '6'], ['0']].map CommandLine.Opt.size.saying) =
      .error (.badSize ['0'] .zero) := by
    rw [read_sizes]
    decide
  rcases hagree _ _ _ _ (by decide) hmeans hsizes with ⟨ns, h⟩ | ⟨t, e, h⟩
  · have hread := h.line
    rw [hline] at hread
    cases hread
  · have hread := h.line
    rw [hline] at hread
    cases hread
    exact h

/-! ## There are such documents -/

theorem exists_givesOnly {P : Value → Prop} (name : List Char) (hparts : 0 < ρ.parts) (hne : name ≠ [])
    (hbare : ∀ c ∈ name, isBareKey c = true) (h : ∃ t, ∀ r, ∃ v, ValueAt ρ ρ.nesting (t ++ r) v r ∧ P v) :
    ∃ text v, P v ∧ GivesOnly ρ text name v := by
  obtain ⟨t, ht⟩ := h
  obtain ⟨v, hv, hP⟩ := ht []
  rw [List.append_nil] at hv
  exact ⟨_, v, hP, _, _, Or.inl rfl, lines_of_value name hne hbare hparts hv, rfl⟩

/-- Every list of texts can be given as sizes, and every text as a filter. -/
theorem every_text_can_be_given (hnesting : 0 < ρ.nesting) (hparts : 0 < ρ.parts) (ts : List (List Char))
    (u : List Char) :
    (∃ text m vs, List.Forall₂ MeansText vs ts ∧ GivesOnly ρ text "sizes".toList (.array m vs)) ∧
    ∃ text m, GivesOnly ρ text "filter".toList (.scalar m (.string u)) := by
  have htext : ∀ (depth : Nat) (t : List Char), ∃ s, ∀ r, ∃ v, ValueAt ρ depth (s ++ r) v r ∧
      ∃ m, v = .scalar m (.string t) := by
    intro depth t
    obtain ⟨s, hs⟩ := exists_string ρ depth t
    refine ⟨s, fun r => ?_⟩
    obtain ⟨m, hm⟩ := hs r
    exact ⟨_, hm, m, rfl⟩
  constructor
  · obtain ⟨depth, hdepth⟩ := Nat.exists_eq_add_of_lt hnesting
    obtain ⟨s, hs⟩ := exists_items ts (htext depth)
    have harray : ∃ s, ∀ r, ∃ v, ValueAt ρ ρ.nesting (s ++ r) v r ∧ ∃ m vs, v = .array m vs ∧
        List.Forall₂ MeansText vs ts := by
      refine ⟨'[' :: s, fun r => ?_⟩
      obtain ⟨vs, hvs, hall⟩ := hs r
      refine ⟨.array (markOf ('[' :: (s ++ r))) vs, ?_, _, vs, rfl, hall.imp ?_⟩
      · rw [hdepth, Nat.zero_add]
        exact .array hvs
      · rintro v t ⟨m, rfl⟩
        exact .string
    obtain ⟨text, v, ⟨m, vs, rfl, hvs⟩, hgives⟩ :=
      exists_givesOnly "sizes".toList hparts (by decide) (List.all_eq_true.1 rfl) harray
    exact ⟨text, m, vs, hvs, hgives⟩
  · obtain ⟨text, v, ⟨m, rfl⟩, hgives⟩ :=
      exists_givesOnly "filter".toList hparts (by decide) (List.all_eq_true.1 rfl) (htext ρ.nesting u)
    exact ⟨text, m, hgives⟩

end IconMaker.Settings
