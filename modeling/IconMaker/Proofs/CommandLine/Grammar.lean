import IconMaker.Proofs.CommandLine.Steps
import IconMaker.Proofs.Results
import IconMaker.Proofs.Size

/-
  IconMaker.Proofs.CommandLine.Grammar — the command lines that are accepted, and what they say.

  A command line is a run of occurrences, each an option with a value in one of five spellings,
  and perhaps `--` at the end (`Line`). The occurrences give flags (`Gives`) if every value is one
  of its option and no option but the size occurs twice.
  - `read_of_line` / `exists_spelled`: the reader accepts exactly the lines whose values it can
    take one after another; what it has taken at any place is told by the occurrences before that
    place and the argument that still waits (`Reached`).
  - `gives_iff`: values taken one after another give flags that hold exactly these values.
  - `accepted_exactly_on_the_grammar`: both together, and every flags value has a line.
-/

namespace IconMaker.CommandLine

/-! ## The grammar -/

/-- The five spellings of an option with a value. -/
inductive Occurrence (o : Opt) (v : Bytes) : List Bytes → Prop
  /-- `-cV` -/
  | attached : v.head? ≠ some equals → Occurrence o v [o.short ++ v]
  /-- `-c=V` -/
  | attachedEquals : Occurrence o v [o.short ++ equals :: v]
  /-- `-c V` -/
  | separate : Standalone v → Occurrence o v [o.short, v]
  /-- `--name V` -/
  | longSeparate : Standalone v → Occurrence o v [o.long, v]
  /-- `--name=V` -/
  | longEquals : Occurrence o v [o.long ++ equals :: v]

/-- One occurrence after another. -/
inductive Spelled : List (Opt × Bytes) → List Bytes → Prop
  | nil : Spelled [] []
  | cons {o : Opt} {v : Bytes} {os : List (Opt × Bytes)} {as r : List Bytes} :
      Occurrence o v as → Spelled os r → Spelled ((o, v) :: os) (as ++ r)

/-- Occurrences, and perhaps `--` behind them. -/
def Line (os : List (Opt × Bytes)) (arguments : List Bytes) : Prop :=
  Spelled os arguments ∨ ∃ as, Spelled os as ∧ arguments = as ++ [dashes]

/-- The values that an option is given, in order. -/
def given (o : Opt) (os : List (Opt × Bytes)) : List Bytes := (os.filter fun x => x.1 = o).map (·.2)

/-- The value is the text of this size. -/
def GivesSize (v : Bytes) (s : Size) : Prop := ∃ t, v = Text.utf8 t ∧ Size.parse t = .ok s

/-- The flags hold exactly these values of an option. -/
def Holds (f : Flags) (o : Opt) (vs : List Bytes) : Prop :=
  match o with
  | .input => vs = f.input.toList ∧ [] ∉ vs
  | .output => vs = f.output.toList ∧ [] ∉ vs
  | .config => vs = f.config.toList ∧ [] ∉ vs
  | .filter => vs = (f.filter.map fun x => Text.utf8 x.name.toList).toList
  | .size => List.Forall₂ GivesSize vs f.sizes

/-- The flags hold what the occurrences say, and nothing else. -/
def Gives (os : List (Opt × Bytes)) (f : Flags) : Prop := ∀ o, Holds f o (given o os)

/-- Takes one value after another. -/
def acceptAll (f : Flags) (os : List (Opt × Bytes)) : Except Stop Flags := os.foldlM (fun f x => accept f x.1 x.2) f

/-! ## Accepted lines are spelled -/

/-- The arguments of an option whose value is still to be taken. -/
inductive Waits : Pending → List Bytes → Prop
  | none : Waits .none []
  | awaiting {o : Opt} {a : Bytes} : Names o a → Waits (.awaiting o) [a]
  | holding {o : Opt} {a v : Bytes} : Names o a → Standalone v → Waits (.holding o v) [a, v]

/-- What has been read in a state. -/
structure Reached (as : List Bytes) (st : State) : Prop where
  intro ::
  read : ∃ os before tail, Spelled os before ∧ acceptAll .empty os = .ok st.flags ∧ Waits st.pending tail ∧
    as = before ++ tail ++ if st.ended then [dashes] else []

variable {o : Opt} {v : Bytes} {os os' : List (Opt × Bytes)} {as as' : List Bytes} {f f' : Flags} {st st' : State}

theorem spelled_append (h : Spelled os as) (h' : Spelled os' as') : Spelled (os ++ os') (as ++ as') := by
  induction h with
  | nil => exact h'
  | cons ho _ ih =>
    rw [List.append_assoc, List.cons_append]
    exact .cons ho ih

theorem spelled_single (h : Occurrence o v as) : Spelled [(o, v)] as := by
  have := Spelled.cons h .nil
  rwa [List.append_nil] at this

theorem acceptAll_cons (f : Flags) (o : Opt) (v : Bytes) (os : List (Opt × Bytes)) :
    acceptAll f ((o, v) :: os) = (accept f o v).bind (acceptAll · os) := List.foldlM_cons

theorem acceptAll_snoc (f : Flags) (os : List (Opt × Bytes)) (o : Opt) (v : Bytes) :
    acceptAll f (os ++ [(o, v)]) = (acceptAll f os).bind (accept · o v) := by
  induction os generalizing f with
  | nil =>
    rw [List.nil_append, acceptAll_cons]
    cases h : accept f o v <;> exact h.symm
  | cons x os ih =>
    rw [List.cons_append, acceptAll_cons, acceptAll_cons]
    cases accept f x.1 x.2 with
    | error e => rfl
    | ok g => exact ih g

theorem occurrence_of_names {a : Bytes} (ha : Names o a) (hv : Standalone v) : Occurrence o v [a, v] := by
  rcases ha with rfl | rfl
  · exact .separate hv
  · exact .longSeparate hv

theorem occurrence_of_attaches {a : Bytes} (h : Attaches o v a) : Occurrence o v [a] := by
  cases h with
  | letter _ hv => exact .attached hv
  | letterEquals => exact .attachedEquals
  | nameEquals => exact .longEquals

/-- A value that waits is taken as the last occurrence. -/
theorem spelled_of_settle {before tail : List Bytes} {p : Pending} (hs : Spelled os before)
    (ha : acceptAll .empty os = .ok f) (hw : Waits p tail) (h : settle f p = .ok f') :
    ∃ os', Spelled os' (before ++ tail) ∧ acceptAll .empty os' = .ok f' := by
  cases hw with
  | none =>
    cases h
    exact ⟨os, by rwa [List.append_nil], ha⟩
  | awaiting => cases h
  | @holding o a v hn hv =>
    refine ⟨os ++ [(o, v)], spelled_append hs (spelled_single (occurrence_of_names hn hv)), ?_⟩
    rw [acceptAll_snoc, ha]
    exact h

theorem reached_step {a : Bytes} (h : Reached as st) (hs : Step st a st') (he : st.ended = false) :
    Reached (as ++ [a]) st' := by
  obtain ⟨os, before, tail, hos, hall, hw, rfl⟩ := h
  rw [he]
  simp only [Bool.false_eq_true, if_false, List.append_nil]
  cases hs with
  | ends ha => exact ⟨os, before, tail, hos, hall, hw, by simp [ha]⟩
  | @holds o ho ha =>
    rw [ho] at hw
    cases hw with
    | awaiting hn => exact ⟨os, before, _, hos, hall, .holding hn ha, by simp [he]⟩
  | begins ha hf =>
    obtain ⟨os', hos', hall'⟩ := spelled_of_settle hos hall hw hf
    exact ⟨os', _, _, hos', hall', .awaiting ha, by simp [he]⟩
  | attaches ha hf hf' =>
    obtain ⟨os', hos', hall'⟩ := spelled_of_settle hos hall hw hf
    refine ⟨_, _, _, spelled_append hos' (spelled_single (occurrence_of_attaches ha)), ?_, .none, ?_⟩
    · rw [acceptAll_snoc, hall']
      exact hf'
    · simp [he]

theorem step_ended {a : Bytes} (he : st.ended = true) : step st a ≠ .ok st' := by
  unfold step
  rw [he, if_pos rfl]
  exact fun h => by cases h

theorem reached_foldlM (h : Reached as st) (hf : as'.foldlM step st = .ok st') : Reached (as ++ as') st' := by
  induction as' generalizing as st with
  | nil =>
    cases hf
    rwa [List.append_nil]
  | cons a as' ih =>
    rw [List.foldlM_cons] at hf
    cases hs : step st a with
    | error e => rw [hs] at hf; cases hf
    | ok st1 =>
      rw [hs] at hf
      cases he : st.ended with
      | true => exact absurd hs (step_ended he)
      | false =>
        have := ih (reached_step h ((step_eq_ok_iff he).1 hs) he) hf
        rwa [List.append_assoc] at this

theorem exists_spelled {arguments : List Bytes} (h : read arguments = .ok f) :
    ∃ os, Line os arguments ∧ acceptAll .empty os = .ok f := by
  unfold read at h
  cases hf : arguments.foldlM step .start with
  | error e => rw [hf] at h; cases h
  | ok st =>
    rw [hf] at h
    have hstart : Reached [] .start := ⟨[], [], [], .nil, rfl, .none, rfl⟩
    obtain ⟨os, before, tail, hos, hall, hw, has⟩ := reached_foldlM hstart hf
    obtain ⟨os', hos', hall'⟩ := spelled_of_settle hos hall hw h
    refine ⟨os', ?_, hall'⟩
    rw [List.nil_append] at has
    cases he : st.ended with
    | true => exact .inr ⟨_, hos', by rw [has, he]; rfl⟩
    | false => exact .inl (by rw [has, he]; simpa using hos')

/-! ## Values -/

theorem once_eq_ok_iff {α : Type} {old y : Option α} {new : Except Stop α} :
    once o old new = .ok y ↔ old = none ∧ ∃ x, new = .ok x ∧ y = some x := by
  cases old with
  | some x => simp [once]
  | none => cases new <;> simp [once, Except.map, eq_comm]

theorem pathValue_eq_ok_iff {p : Path} : pathValue o v = .ok p ↔ v ≠ [] ∧ v = p := by
  by_cases hv : v = [] <;> simp [pathValue, hv]

theorem ofName?_eq_some_iff {t : List Char} {x : Filter} : Filter.ofName? t = some x ↔ x.name.toList = t := by
  constructor
  · intro h
    simpa using List.find?_some h
  · intro h
    subst h
    cases x <;> rfl

theorem filterValue_eq_ok_iff {x : Filter} : filterValue v = .ok x ↔ v = Text.utf8 x.name.toList := by
  have hbind : (Text.text? v).bind Filter.ofName? = some x ↔ v = Text.utf8 x.name.toList := by
    rw [Option.bind_eq_some_iff]
    constructor
    · rintro ⟨t, ht, hx⟩
      rw [Text.text?_eq_some_iff.1 ht, ofName?_eq_some_iff.1 hx]
    · intro h
      exact ⟨_, Text.text?_eq_some_iff.2 h, ofName?_eq_some_iff.2 rfl⟩
  rw [← hbind, filterValue]
  cases (Text.text? v).bind Filter.ofName? with
  | some y => simp
  | none =>
    by_cases hv : v = [] <;> simp [hv]

theorem sizeValue_eq_ok_iff {s : Size} : sizeValue v = .ok s ↔ GivesSize v s := by
  unfold sizeValue GivesSize
  cases ht : Text.text? v with
  | none =>
    constructor
    · intro h
      cases h
    · rintro ⟨t, hv, -⟩
      rw [Text.text?_eq_some_iff.2 hv] at ht
      cases ht
  | some t =>
    have hv : ∀ t', v = Text.utf8 t' ↔ t = t' := by
      intro t'
      rw [← Text.text?_eq_some_iff, ht, Option.some.injEq]
    simp only [hv, exists_eq_left']
    cases hp : Size.parse t <;> simp [Except.mapError]

/-- What it takes for an option's value to be taken, and the flags that come of it. -/
def Takes (f : Flags) (o : Opt) (v : Bytes) (f' : Flags) : Prop :=
  match o with
  | .input => f.input = none ∧ v ≠ [] ∧ f' = { f with input := some v }
  | .output => f.output = none ∧ v ≠ [] ∧ f' = { f with output := some v }
  | .config => f.config = none ∧ v ≠ [] ∧ f' = { f with config := some v }
  | .filter => f.filter = none ∧ ∃ x, v = Text.utf8 x.name.toList ∧ f' = { f with filter := some x }
  | .size => ∃ s, GivesSize v s ∧ f' = { f with sizes := f.sizes ++ [s] }

theorem accept_eq_ok_iff : accept f o v = .ok f' ↔ Takes f o v f' := by
  cases o with
  | input | output | config =>
    simp only [accept, Takes, map_eq_ok_iff, once_eq_ok_iff, pathValue_eq_ok_iff]
    constructor
    · rintro ⟨_, ⟨h, _, ⟨hv, rfl⟩, rfl⟩, rfl⟩
      exact ⟨h, hv, rfl⟩
    · rintro ⟨h, hv, rfl⟩
      exact ⟨_, ⟨h, _, ⟨hv, rfl⟩, rfl⟩, rfl⟩
  | filter =>
    simp only [accept, Takes, map_eq_ok_iff, once_eq_ok_iff, filterValue_eq_ok_iff]
    constructor
    · rintro ⟨_, ⟨h, x, hx, rfl⟩, rfl⟩
      exact ⟨h, x, hx, rfl⟩
    · rintro ⟨h, x, hx, rfl⟩
      exact ⟨_, ⟨h, x, hx, rfl⟩, rfl⟩
  | size =>
    simp only [accept, Takes, map_eq_ok_iff, sizeValue_eq_ok_iff]
    constructor
    · rintro ⟨s, hs, rfl⟩
      exact ⟨s, hs, rfl⟩
    · rintro ⟨s, hs, rfl⟩
      exact ⟨s, hs, rfl⟩

theorem ne_nil_of_takes (h : Takes f o v f') : v ≠ [] := by
  rintro rfl
  cases o with
  | input | output | config => exact h.2.1 rfl
  | filter =>
    obtain ⟨-, x, hx, -⟩ := h
    cases x <;> exact absurd hx (by decide)
  | size =>
    obtain ⟨s, ⟨t, ht, hs⟩, -⟩ := h
    have htext : Text.text? [] = some [] := Text.text?_utf8 []
    rw [Text.text?_eq_some_iff.2 ht] at htext
    cases htext
    have hmalformed : Size.parse [] = .error (.malformed []) := by decide
    rw [hmalformed] at hs
    cases hs

/-! ## What has been taken -/

variable {vs : List Bytes} {o' : Opt}

theorem holds_frame (h : Takes f o v f') (hne : o' ≠ o) : Holds f' o' vs ↔ Holds f o' vs := by
  cases o with
  | input | output | config =>
    obtain ⟨-, -, rfl⟩ := h
    cases o' <;> first | exact absurd rfl hne | exact Iff.rfl
  | filter =>
    obtain ⟨-, x, -, rfl⟩ := h
    cases o' <;> first | exact absurd rfl hne | exact Iff.rfl
  | size =>
    obtain ⟨s, -, rfl⟩ := h
    cases o' <;> first | exact absurd rfl hne | exact Iff.rfl

theorem path_snoc {p : Option Path} (h : vs ++ [v] = p.toList ∧ [] ∉ vs ++ [v]) :
    vs = [] ∧ v ≠ [] ∧ p = some v := by
  obtain ⟨hp, hv⟩ := h
  cases p with
  | none => simp at hp
  | some p =>
    rw [Option.toList_some, List.append_eq_singleton_iff] at hp
    rcases hp with ⟨rfl, hp⟩ | ⟨-, hp⟩
    · cases hp
      exact ⟨rfl, fun e => hv (by simp [e]), rfl⟩
    · cases hp

theorem exists_takes (h : Holds f' o (vs ++ [v])) : ∃ f, Holds f o vs ∧ Takes f o v f' := by
  cases o with
  | input =>
    obtain ⟨rfl, hv, hp⟩ := path_snoc h
    exact ⟨{ f' with input := none }, ⟨rfl, by simp⟩, rfl, hv, by rw [← hp]⟩
  | output =>
    obtain ⟨rfl, hv, hp⟩ := path_snoc h
    exact ⟨{ f' with output := none }, ⟨rfl, by simp⟩, rfl, hv, by rw [← hp]⟩
  | config =>
    obtain ⟨rfl, hv, hp⟩ := path_snoc h
    exact ⟨{ f' with config := none }, ⟨rfl, by simp⟩, rfl, hv, by rw [← hp]⟩
  | filter =>
    obtain ⟨input, output, config, sizes, filter⟩ := f'
    cases filter with
    | none => simp [Holds] at h
    | some x =>
      rw [Holds, Option.map_some, Option.toList_some, List.append_eq_singleton_iff] at h
      rcases h with ⟨rfl, h⟩ | ⟨-, h⟩
      · cases h
        exact ⟨⟨input, output, config, sizes, none⟩, rfl, rfl, x, rfl, rfl⟩
      · cases h
  | size =>
    obtain ⟨input, output, config, sizes, filter⟩ := f'
    have hflip : List.Forall₂ (flip GivesSize) sizes (vs ++ [v]) := h.flip
    have hbefore := (List.forall₂_take_append _ _ _ hflip).flip
    have hlast := (List.forall₂_drop_append _ _ _ hflip).flip
    obtain ⟨s, rest, hs, hrest, hdrop⟩ := List.forall₂_cons_left_iff.1 hlast
    rw [List.forall₂_nil_left_iff] at hrest
    subst hrest
    refine ⟨⟨input, output, config, sizes.take vs.length, filter⟩, hbefore, s, hs, ?_⟩
    rw [← hdrop, List.take_append_drop]

theorem holds_snoc (h : Holds f o vs) (ht : Takes f o v f') : Holds f' o (vs ++ [v]) := by
  cases o with
  | input | output | config =>
    obtain ⟨hn, hv, rfl⟩ := ht
    obtain ⟨rfl, -⟩ := h
    simp [Holds, hn, Ne.symm hv]
  | filter =>
    obtain ⟨hn, x, rfl, rfl⟩ := ht
    simp [Holds, hn] at h ⊢
    exact h
  | size =>
    obtain ⟨s, hs, rfl⟩ := ht
    exact List.rel_append h (.cons hs .nil)

theorem given_snoc (o o' : Opt) (v : Bytes) (os : List (Opt × Bytes)) :
    given o (os ++ [(o', v)]) = if o' = o then given o os ++ [v] else given o os := by
  by_cases h : o' = o <;> simp [given, h]

theorem gives_snoc : Gives (os ++ [(o, v)]) f' ↔ ∃ f, Gives os f ∧ Takes f o v f' := by
  constructor
  · intro h
    have ho := h o
    rw [given_snoc, if_pos rfl] at ho
    obtain ⟨f, hf, ht⟩ := exists_takes ho
    refine ⟨f, fun o' => ?_, ht⟩
    by_cases he : o' = o
    · rw [he]
      exact hf
    · have := h o'
      rw [given_snoc, if_neg (Ne.symm he)] at this
      exact (holds_frame ht he).1 this
  · rintro ⟨f, hf, ht⟩ o'
    rw [given_snoc]
    by_cases he : o' = o
    · rw [if_pos he.symm, he]
      exact holds_snoc (hf o) ht
    · rw [if_neg (Ne.symm he)]
      exact (holds_frame ht he).2 (hf o')

theorem gives_nil : Gives [] f ↔ f = .empty := by
  constructor
  · intro h
    obtain ⟨input, output, config, sizes, filter⟩ := f
    have h1 := (h .input).1
    have h2 := (h .output).1
    have h3 := (h .config).1
    have h4 := h .filter
    have h5 := h .size
    simp [given, Holds] at h1 h2 h3 h4 h5
    subst h1 h2 h3 h4 h5
    rfl
  · rintro rfl o
    cases o <;> simp [given, Holds, Flags.empty]

/-- The values are taken exactly if they are what the flags say. -/
theorem gives_iff : Gives os f ↔ acceptAll .empty os = .ok f := by
  induction os using List.reverseRecOn generalizing f with
  | nil =>
    rw [gives_nil, acceptAll]
    constructor
    · rintro rfl
      rfl
    · intro h
      cases h
      rfl
  | append_singleton os x ih =>
    obtain ⟨o, v⟩ := x
    rw [gives_snoc, acceptAll_snoc]
    constructor
    · rintro ⟨g, hg, ht⟩
      rw [ih.1 hg]
      exact accept_eq_ok_iff.2 ht
    · intro h
      cases hg : acceptAll .empty os with
      | error e => rw [hg] at h; cases h
      | ok g =>
        rw [hg] at h
        exact ⟨g, ih.2 hg, accept_eq_ok_iff.1 h⟩

/-! ## Spelled lines are accepted -/

/-- Nothing has ended the options, and with the value that waits these are the flags. -/
def Open (st : State) (f : Flags) : Prop := st.ended = false ∧ settle st.flags st.pending = .ok f

theorem open_attached {a : Bytes} (h : Open st f) (hv : Attaches o v a) (ha : accept f o v = .ok f') :
    ∃ st', [a].foldlM step st = .ok st' ∧ Open st' f' := by
  obtain ⟨he, hs⟩ := h
  refine ⟨⟨f', .none, st.ended⟩, ?_, he, rfl⟩
  rw [List.foldlM_cons, (step_eq_ok_iff he).2 (.attaches hv hs ha)]
  rfl

theorem open_separate {a : Bytes} (h : Open st f) (hn : Names o a) (hv : Standalone v) (ha : accept f o v = .ok f') :
    ∃ st', [a, v].foldlM step st = .ok st' ∧ Open st' f' := by
  obtain ⟨he, hs⟩ := h
  refine ⟨⟨f, .holding o v, st.ended⟩, ?_, he, ha⟩
  have hhold : Step ⟨f, .awaiting o, st.ended⟩ v ⟨f, .holding o v, st.ended⟩ := .holds rfl hv
  have hopen : (⟨f, .awaiting o, st.ended⟩ : State).ended = false := he
  have hstep : step ⟨f, .awaiting o, st.ended⟩ v = .ok ⟨f, .holding o v, st.ended⟩ := (step_eq_ok_iff hopen).2 hhold
  rw [List.foldlM_cons, (step_eq_ok_iff he).2 (.begins hn hs)]
  change [v].foldlM step ⟨f, .awaiting o, st.ended⟩ = _
  rw [List.foldlM_cons, hstep]
  rfl

theorem open_occurrence (h : Open st f) (ho : Occurrence o v as) (ha : accept f o v = .ok f') :
    ∃ st', as.foldlM step st = .ok st' ∧ Open st' f' := by
  cases ho with
  | attached hv => exact open_attached h (.letter (ne_nil_of_takes (accept_eq_ok_iff.1 ha)) hv) ha
  | attachedEquals => exact open_attached h .letterEquals ha
  | separate hv => exact open_separate h (.inl rfl) hv ha
  | longSeparate hv => exact open_separate h (.inr rfl) hv ha
  | longEquals => exact open_attached h .nameEquals ha

theorem open_spelled (h : Open st f) (hs : Spelled os as) (ha : acceptAll f os = .ok f') :
    ∃ st', as.foldlM step st = .ok st' ∧ Open st' f' := by
  induction hs generalizing st f with
  | nil =>
    cases ha
    exact ⟨st, rfl, h⟩
  | cons ho _ ih =>
    rw [acceptAll_cons] at ha
    cases hf : accept f _ _ with
    | error e => rw [hf] at ha; cases ha
    | ok g =>
      rw [hf] at ha
      obtain ⟨st1, hst1, h1⟩ := open_occurrence h ho hf
      obtain ⟨st2, hst2, h2⟩ := ih h1 ha
      refine ⟨st2, ?_, h2⟩
      rw [List.foldlM_append, hst1]
      exact hst2

theorem read_of_line {arguments : List Bytes} (h : Line os arguments) (ha : acceptAll .empty os = .ok f) :
    read arguments = .ok f := by
  have hstart : Open .start .empty := ⟨rfl, rfl⟩
  rcases h with hs | ⟨as, hs, rfl⟩
  · obtain ⟨st, hst, ho⟩ := open_spelled hstart hs ha
    unfold read
    rw [hst]
    exact ho.2
  · obtain ⟨st, hst, ho⟩ := open_spelled hstart hs ha
    have hdashes : step st dashes = .ok { st with ended := true } := step_dashes ho.1
    have hend : (as ++ [dashes]).foldlM step .start = .ok { st with ended := true } := by
      rw [List.foldlM_append, hst]
      change [dashes].foldlM step st = _
      rw [List.foldlM_cons, hdashes]
      rfl
    unfold read
    rw [hend]
    exact ho.2

/-! ## Every flags value has a line -/

/-- The flags hold no empty path. -/
def PathsNamed (f : Flags) : Prop := f.input ≠ some [] ∧ f.output ≠ some [] ∧ f.config ≠ some []

/-- Occurrences of one option. -/
def occurrences (o : Opt) (vs : List Bytes) : List (Opt × Bytes) := vs.map fun v => (o, v)

/-- One occurrence for each thing that the flags hold. -/
def occurrencesOf (f : Flags) : List (Opt × Bytes) :=
  occurrences .input f.input.toList ++ occurrences .output f.output.toList ++ occurrences .config f.config.toList
    ++ occurrences .filter (f.filter.toList.map fun x => Text.utf8 x.name.toList)
    ++ occurrences .size (f.sizes.map fun s => Text.utf8 s.text)

theorem given_append (o : Opt) (os os' : List (Opt × Bytes)) : given o (os ++ os') = given o os ++ given o os' := by
  simp [given]

theorem given_occurrences (o o' : Opt) (vs : List Bytes) :
    given o (occurrences o' vs) = if o' = o then vs else [] := by
  by_cases h : o' = o <;> simp [given, occurrences, List.filter_map, Function.comp_def, h]

theorem gives_occurrencesOf (h : PathsNamed f) : Gives (occurrencesOf f) f := by
  obtain ⟨h1, h2, h3⟩ := h
  have hname : ∀ {p : Option Path}, p ≠ some [] → [] ∉ p.toList := by
    intro p hp
    cases p with
    | none => simp
    | some p => simpa [eq_comm] using hp
  have hsizes : List.Forall₂ GivesSize (f.sizes.map fun s => Text.utf8 s.text) f.sizes := by
    rw [List.forall₂_map_left_iff, List.forall₂_same]
    exact fun s _ => ⟨s.text, rfl, Size.parse_text s⟩
  intro o
  simp only [occurrencesOf, given_append, given_occurrences]
  cases o with
  | input => exact ⟨by simp, by simpa using hname h1⟩
  | output => exact ⟨by simp, by simpa using hname h2⟩
  | config => exact ⟨by simp, by simpa using hname h3⟩
  | filter => cases hf : f.filter <;> simp [Holds, hf]
  | size => exact hsizes

/-! ## The law -/

/-- A command line is accepted exactly if it is spelled by the grammar and its values are right,
    and then the flags hold what it says, byte for byte. Every flags value without empty paths
    has occurrences that say it, and reads back from each line that spells them. -/
theorem accepted_exactly_on_the_grammar (arguments : List Bytes) (f : Flags) :
    (read arguments = .ok f ↔ ∃ os, Line os arguments ∧ Gives os f) ∧
    (PathsNamed f → ∃ os, Gives os f ∧ ∀ as, Line os as → read as = .ok f) := by
  refine ⟨⟨fun h => ?_, ?_⟩, fun h => ?_⟩
  · obtain ⟨os, hl, ha⟩ := exists_spelled h
    exact ⟨os, hl, gives_iff.2 ha⟩
  · rintro ⟨os, hl, hg⟩
    exact read_of_line hl (gives_iff.1 hg)
  · have hg := gives_occurrencesOf h
    exact ⟨occurrencesOf f, hg, fun as hl => read_of_line hl (gives_iff.1 hg)⟩

/-! ## A line with all five spellings -/

def argument (s : String) : Bytes := Text.utf8 s.toList

def mixedLine : List Bytes :=
  ["-i==a", "--size", "16", "-s48x48", "--filter=nearest", "-o", "-", "--"].map argument

def mixedOccurrences : List (Opt × Bytes) :=
  [(.input, argument "=a"), (.size, argument "16"), (.size, argument "48x48"), (.filter, argument "nearest"),
    (.output, argument "-")]

def mixedFlags (sizes : List Size) : Flags := ⟨some (argument "=a"), some (argument "-"), none, sizes, some .nearest⟩

theorem spelled_mixedLine : Line mixedOccurrences mixedLine := by
  have hspelled : Spelled mixedOccurrences
      (["-i==a", "--size", "16", "-s48x48", "--filter=nearest", "-o", "-"].map argument) :=
    .cons .attachedEquals <| .cons (.longSeparate (.inr (by decide))) <| .cons (.attached (by decide)) <|
      .cons .longEquals <| .cons (.separate (.inl rfl)) .nil
  exact .inr ⟨_, hspelled, rfl⟩

theorem gives_mixedFlags :
    Gives mixedOccurrences (mixedFlags [⟨16, by decide, by decide⟩, ⟨48, by decide, by decide⟩]) := by
  intro o
  cases o with
  | input => exact ⟨by decide, by decide⟩
  | output => exact ⟨by decide, by decide⟩
  | config => exact ⟨by decide, by decide⟩
  | filter => exact (by decide : given .filter mixedOccurrences = [argument "nearest"])
  | size =>
    have hsizes : given .size mixedOccurrences = [argument "16", argument "48x48"] := by decide
    change List.Forall₂ GivesSize (given .size mixedOccurrences) _
    rw [hsizes]
    exact .cons ⟨"16".toList, rfl, by decide⟩ (.cons ⟨"48x48".toList, rfl, by decide⟩ .nil)

theorem a_mixed_line_is_accepted :
    Line mixedOccurrences mixedLine ∧
    Gives mixedOccurrences (mixedFlags [⟨16, by decide, by decide⟩, ⟨48, by decide, by decide⟩]) ∧
    PathsNamed (mixedFlags [⟨16, by decide, by decide⟩, ⟨48, by decide, by decide⟩]) ∧
    read mixedLine = .ok (mixedFlags [⟨16, by decide, by decide⟩, ⟨48, by decide, by decide⟩]) :=
  ⟨spelled_mixedLine, gives_mixedFlags, ⟨by decide, by decide, by decide⟩,
    (accepted_exactly_on_the_grammar mixedLine _).1.2 ⟨_, spelled_mixedLine, gives_mixedFlags⟩⟩

end IconMaker.CommandLine
