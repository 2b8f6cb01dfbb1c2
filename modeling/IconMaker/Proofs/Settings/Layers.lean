import IconMaker.Proofs.Settings.Schema
import IconMaker.Proofs.SizeList
import IconMaker.Proofs.Text.Utf8
import IconMaker.Run

/-
  IconMaker.Proofs.Settings.Layers — what a job is made of.

  A job has three layers, the flags over the settings in the file that they name over the
  defaults.
  - `unloadable_or_loaded` / `resolve_of_unloadable`: the file comes first. If it gives no
    settings, nothing else is looked at.
  - `resolve_eq_ok_iff` / `exists_badSizes_iff`: otherwise each field of the job comes from the
    first layer that has it. The list of sizes is taken whole and only then looked at, so one
    that another layer covers is never found wrong.
  - `same_of_decided`: no field of the job depends on another field of any layer.
  - `flags_over_file_over_defaults`: all of it.
-/

namespace IconMaker

/-! ## Fields -/

inductive Field where
  | input
  | output
  | sizes
  | filter
  deriving DecidableEq, Repr

def Flags.Same (x : Field) (f g : Flags) : Prop :=
  match x with
  | .input => f.input = g.input
  | .output => f.output = g.output
  | .sizes => f.sizes = g.sizes
  | .filter => f.filter = g.filter

def Settings.Same (x : Field) (s t : Settings) : Prop :=
  match x with
  | .input => s.input = t.input
  | .output => s.output = t.output
  | .sizes => s.sizes = t.sizes
  | .filter => s.filter = t.filter

def Job.Same (x : Field) (j k : Job) : Prop :=
  match x with
  | .input => j.input = k.input
  | .output => j.output = k.output
  | .sizes => j.sizes = k.sizes
  | .filter => j.filter = k.filter

/-- The flags differ in one field at most, and name the same file. -/
def Flags.SameBut (x : Field) (f g : Flags) : Prop := f.config = g.config ∧ ∀ y, y ≠ x → f.Same y g

/-- The settings differ in one key at most. -/
def Settings.SameBut (x : Field) (s t : Settings) : Prop := ∀ y, y ≠ x → s.Same y t

/-- The jobs differ in one field at most. -/
def Job.SameBut (x : Field) (j k : Job) : Prop := ∀ y, y ≠ x → j.Same y k

/-! ## The layers -/

/-- The file that the flags name gives no settings, for this reason. -/
inductive Flags.Unloadable (f : Flags) (read : Path → Except IoError Bytes) : ResolveError → Prop
  | unreadable {p : Path} {e : IoError} : f.config = some p → read p = .error e → Unloadable f read (.unreadable e)
  | noText {p : Path} {bs : Bytes} : f.config = some p → read p = .ok bs → (∀ t, bs ≠ Text.utf8 t) →
      Unloadable f read (.unreadable .invalidData)
  | malformed {p : Path} {t : List Char} {x : Settings.Fault} : f.config = some p → read p = .ok (Text.utf8 t) →
      Settings.parse t = .error x → Unloadable f read (.malformed x)

/-- The settings in the file that the flags name, or none if they name no file. -/
inductive Flags.Loaded (f : Flags) (read : Path → Except IoError Bytes) : Settings → Prop
  | none : f.config = none → Loaded f read .empty
  | file {p : Path} {t : List Char} {s : Settings} : f.config = some p → read p = .ok (Text.utf8 t) →
      Settings.parse t = .ok s → Loaded f read s

namespace Settings

/-- The flag's value if there is one, else the file's, else the default. -/
inductive Chosen {α : Type} (flag file : Option α) (default : α) : α → Prop
  | flag {a : α} : flag = some a → Chosen flag file default a
  | file {a : α} : flag = none → file = some a → Chosen flag file default a
  | default : flag = none → file = none → Chosen flag file default default

/-- The sizes of the flags if there are any, else the file's list, else the default one. -/
inductive Effective (flags : List Size) (file : Option (List Size)) : List Size → Prop
  | flags : flags ≠ [] → Effective flags file flags
  | file {l : List Size} : flags = [] → file = some l → Effective flags file l
  | default : flags = [] → file = none → Effective flags file SizeList.default.sizes

/-- Sizes that are no list for an icon. -/
def Unfit (l : List Size) : Prop := l = [] ∨ ¬ l.Nodup

/-- A job with nothing in it but what the layers say. -/
structure Decided (f : Flags) (s : Settings) (j : Job) : Prop where
  input : Chosen f.input s.input defaultInput j.input
  output : Chosen f.output s.output defaultOutput j.output
  sizes : Effective f.sizes s.sizes j.sizes.sizes
  filter : Chosen f.filter s.filter Filter.default j.filter

variable {f g : Flags} {s t : Settings} {j k : Job} {l l' : List Size} {read read' : Path → Except IoError Bytes}
  {e : ResolveError}

/-! ## The file -/

theorem settings_of_unloadable (h : f.Unloadable read e) : f.settings read = .error e := by
  unfold Flags.settings
  cases h with
  | unreadable hp hread => simp only [hp, hread, settingsOf]
  | @noText p bs hp hread hbs =>
    have hnone : Text.text? bs = none := by
      rw [Option.eq_none_iff_forall_ne_some]
      intro t ht
      exact hbs t (Text.text?_eq_some_iff.1 ht)
    simp only [hp, hread, settingsOf, hnone]
  | malformed hp hread hparse =>
    simp only [hp, hread, settingsOf, Text.text?_utf8, hparse, Except.mapError]

theorem settings_of_loaded (h : f.Loaded read s) : f.settings read = .ok s := by
  unfold Flags.settings
  cases h with
  | none hp => simp only [hp]
  | file hp hread hparse =>
    simp only [hp, hread, settingsOf, Text.text?_utf8, hparse, Except.mapError]

theorem unloadable_or_loaded (f : Flags) (read : Path → Except IoError Bytes) :
    (∃ e, f.Unloadable read e) ∨ ∃ s, f.Loaded read s := by
  cases hp : f.config with
  | none => exact Or.inr ⟨_, .none hp⟩
  | some p =>
    cases hread : read p with
    | error e => exact Or.inl ⟨_, .unreadable hp hread⟩
    | ok bs =>
      by_cases hbs : ∃ t, bs = Text.utf8 t
      · obtain ⟨t, rfl⟩ := hbs
        cases hparse : parse t with
        | error x => exact Or.inl ⟨_, .malformed hp hread hparse⟩
        | ok s => exact Or.inr ⟨s, .file hp hread hparse⟩
      · exact Or.inl ⟨_, .noText hp hread fun t ht => hbs ⟨t, ht⟩⟩

theorem resolve_of_unloadable (h : f.Unloadable read e) : f.resolve read = .error e := by
  rw [Flags.resolve, settings_of_unloadable h]

theorem resolve_of_loaded (h : f.Loaded read s) :
    f.resolve read = (s.overriddenBy f).job.mapError .badSizes := by
  rw [Flags.resolve, settings_of_loaded h]

/-! ## The choice -/

theorem chosen_iff {α : Type} {flag file : Option α} {d a : α} :
    Chosen flag file d a ↔ (flag.or file).getD d = a := by
  constructor
  · intro h
    cases h with
    | flag hflag => simp [hflag]
    | file hflag hfile => simp [hflag, hfile]
    | default hflag hfile => simp [hflag, hfile]
  · intro h
    subst h
    cases flag with
    | some a => exact .flag rfl
    | none =>
      cases file with
      | some a => exact .file rfl rfl
      | none => exact .default rfl rfl

theorem exists_effective (flags : List Size) (file : Option (List Size)) : ∃ l, Effective flags file l := by
  by_cases hflags : flags = []
  · cases file with
    | some l => exact ⟨l, .file hflags rfl⟩
    | none => exact ⟨_, .default hflags rfl⟩
  · exact ⟨flags, .flags hflags⟩

/-- The sizes are looked at when the layers have been put together. -/
theorem sizeList_of_effective (h : Effective f.sizes s.sizes l) :
    (s.overriddenBy f).sizeList = SizeList.ofList l := by
  unfold sizeList overriddenBy
  cases h with
  | flags hflags => simp only [if_neg hflags]
  | file hflags hfile => simp only [if_pos hflags, hfile]
  | default hflags hfile => simp only [if_pos hflags, hfile, SizeList.ofList_sizes]

theorem Effective.unique {flags : List Size} {file : Option (List Size)} (h : Effective flags file l)
    (h' : Effective flags file l') : l = l' := by
  cases h with
  | flags hflags =>
    cases h' with
    | flags => rfl
    | file hnil | default hnil => exact absurd hnil hflags
  | file hflags hfile =>
    cases h' with
    | flags hne => exact absurd hflags hne
    | file _ hfile' => exact Option.some.inj (hfile.symm.trans hfile')
    | default _ hnone => cases hfile.symm.trans hnone
  | default hflags hfile =>
    cases h' with
    | flags hne => exact absurd hflags hne
    | file _ hsome => cases hfile.symm.trans hsome
    | default => rfl

theorem sizeList_eq_ok_iff {list : SizeList} :
    (s.overriddenBy f).sizeList = .ok list ↔ Effective f.sizes s.sizes list.sizes := by
  obtain ⟨l, hl⟩ := exists_effective f.sizes s.sizes
  rw [sizeList_of_effective hl, SizeList.ofList_eq_ok_iff]
  constructor
  · intro h
    rwa [h]
  · exact fun h => h.unique hl

theorem job_eq_ok_iff : (s.overriddenBy f).job = .ok j ↔ Decided f s j := by
  rw [job, map_eq_ok_iff]
  constructor
  · rintro ⟨list, hlist, rfl⟩
    exact ⟨chosen_iff.2 rfl, chosen_iff.2 rfl, sizeList_eq_ok_iff.1 hlist, chosen_iff.2 rfl⟩
  · intro h
    refine ⟨j.sizes, sizeList_eq_ok_iff.2 h.sizes, ?_⟩
    have hinput := chosen_iff.1 h.input
    have houtput := chosen_iff.1 h.output
    have hfilter := chosen_iff.1 h.filter
    simp only [overriddenBy, hinput, houtput, hfilter]

theorem resolve_eq_ok_iff (h : f.Loaded read s) : f.resolve read = .ok j ↔ Decided f s j := by
  rw [resolve_of_loaded h, mapError_eq_ok_iff, job_eq_ok_iff]

theorem exists_badSizes_iff (h : f.Loaded read s) :
    (∃ e, f.resolve read = .error (.badSizes e)) ↔ ∃ l, Effective f.sizes s.sizes l ∧ Unfit l := by
  obtain ⟨l, hl⟩ := exists_effective f.sizes s.sizes
  have hunfit : (∃ l, Effective f.sizes s.sizes l ∧ Unfit l) ↔ ∃ e, SizeList.ofList l = .error e := by
    rw [SizeList.exists_ofList_error_iff]
    constructor
    · rintro ⟨l', hl', h⟩
      rwa [hl'.unique hl] at h
    · exact fun h => ⟨l, hl, h⟩
  rw [hunfit, resolve_of_loaded h, job, sizeList_of_effective hl]
  simp only [mapError_eq_error_iff, map_eq_error_iff, ResolveError.badSizes.injEq, exists_eq_right]

/-- A list that is wrong does no harm where a right one covers it. -/
theorem badSizes_of_file (h : f.Loaded read s) (hs : s.sizes = some l) (hl : Unfit l) (hf : f.sizes.Nodup) :
    (∃ e, f.resolve read = .error (.badSizes e)) ↔ f.sizes = [] := by
  rw [exists_badSizes_iff h]
  constructor
  · rintro ⟨l', hl', hunfit⟩
    cases hl' with
    | flags hne =>
      rcases hunfit with hnil | hdup
      · exact hnil
      · exact absurd hf hdup
    | file hnil | default hnil => exact hnil
  · intro hnil
    exact ⟨l, .file hnil hs, hl⟩

theorem overriddenBy_overriddenBy (s : Settings) (f : Flags) : (s.overriddenBy f).overriddenBy f = s.overriddenBy f := by
  by_cases hf : f.sizes = []
  · simp only [overriddenBy, ← Option.or_assoc, Option.or_self, if_pos hf]
  · simp only [overriddenBy, ← Option.or_assoc, Option.or_self, if_neg hf]

/-! ## One field at a time -/

/-- A field of the job comes from the same field of the layers. -/
theorem same_of_decided {x : Field} (hf : f.Same x g) (hs : s.Same x t) (hj : Decided f s j) (hk : Decided g t k) :
    j.Same x k := by
  cases x with
  | input =>
    have hinput := chosen_iff.1 hj.input
    rw [show f.input = g.input from hf, show s.input = t.input from hs, chosen_iff.1 hk.input] at hinput
    exact hinput.symm
  | output =>
    have houtput := chosen_iff.1 hj.output
    rw [show f.output = g.output from hf, show s.output = t.output from hs, chosen_iff.1 hk.output] at houtput
    exact houtput.symm
  | sizes =>
    have hsizes := hj.sizes
    rw [show f.sizes = g.sizes from hf, show s.sizes = t.sizes from hs] at hsizes
    have hlist := SizeList.ofList_eq_ok_iff.2 (hk.sizes.unique hsizes)
    rw [SizeList.ofList_sizes] at hlist
    exact Except.ok.inj hlist
  | filter =>
    have hfilter := chosen_iff.1 hj.filter
    rw [show f.filter = g.filter from hf, show s.filter = t.filter from hs, chosen_iff.1 hk.filter] at hfilter
    exact hfilter.symm

theorem Same.refl (x : Field) (s : Settings) : s.Same x s := by
  cases x <;> rfl

theorem sameBut_of_flags {x : Field} (h : f.SameBut x g) (hj : f.resolve read = .ok j) (hk : g.resolve read = .ok k) :
    j.SameBut x k := by
  obtain ⟨hconfig, hsame⟩ := h
  rcases unloadable_or_loaded f read with ⟨e, he⟩ | ⟨s, hs⟩
  · rw [resolve_of_unloadable he] at hj
    cases hj
  · have ht : g.Loaded read s := by
      cases hs with
      | none hp => exact .none (hconfig ▸ hp)
      | file hp hread hparse => exact .file (hconfig ▸ hp) hread hparse
    intro y hy
    exact same_of_decided (hsame y hy) (.refl y s) ((resolve_eq_ok_iff hs).1 hj) ((resolve_eq_ok_iff ht).1 hk)

theorem sameBut_of_settings {x : Field} (hs : f.Loaded read s) (ht : f.Loaded read' t) (h : s.SameBut x t)
    (hj : f.resolve read = .ok j) (hk : f.resolve read' = .ok k) : j.SameBut x k := by
  have hflags : ∀ y, f.Same y f := by
    intro y
    cases y <;> rfl
  intro y hy
  exact same_of_decided (hflags y) (h y hy) ((resolve_eq_ok_iff hs).1 hj) ((resolve_eq_ok_iff ht).1 hk)

/-! ## The law -/

/-- If the file gives no settings, that is the error, whatever the flags say. Otherwise every field
    of the job is the flag's, else the file's, else the default one, and the only error is a list
    of sizes that is empty or has two alike. The same flags change nothing a second time, and a
    change of one flag or of one key does not reach the other fields of the job. -/
theorem flags_over_file_over_defaults (f : Flags) (read : Path → Except IoError Bytes) :
    ((∃ e, f.Unloadable read e) ∨ ∃ s, f.Loaded read s) ∧
    (∀ e, f.Unloadable read e → f.resolve read = .error e) ∧
    (∀ s, f.Loaded read s →
      (∀ job, f.resolve read = .ok job ↔ Decided f s job) ∧
      ((∃ e, f.resolve read = .error (.badSizes e)) ↔ ∃ l, Effective f.sizes s.sizes l ∧ Unfit l) ∧
      ∀ l, s.sizes = some l → Unfit l → f.sizes.Nodup →
        ((∃ e, f.resolve read = .error (.badSizes e)) ↔ f.sizes = [])) ∧
    (∀ s : Settings, (s.overriddenBy f).overriddenBy f = s.overriddenBy f) ∧
    (∀ x g j k, f.SameBut x g → f.resolve read = .ok j → g.resolve read = .ok k → j.SameBut x k) ∧
    ∀ x read' s t j k, f.Loaded read s → f.Loaded read' t → s.SameBut x t → f.resolve read = .ok j →
      f.resolve read' = .ok k → j.SameBut x k := by
  refine ⟨unloadable_or_loaded f read, fun e h => resolve_of_unloadable h, fun s h => ⟨?_, ?_, ?_⟩,
    fun s => overriddenBy_overriddenBy s f, ?_, ?_⟩
  · exact fun job => resolve_eq_ok_iff h
  · exact exists_badSizes_iff h
  · exact fun l hs hl hf => badSizes_of_file h hs hl hf
  · exact fun x g j k h hj hk => sameBut_of_flags h hj hk
  · exact fun x read' s t j k hs ht h hj hk => sameBut_of_settings hs ht h hj hk

/-! ## An empty list below the flags -/

def flagsFor (sizes : List Size) (filter : Option Filter) : Flags := ⟨none, none, some [], sizes, filter⟩

/-- There is one file, and this is in it. -/
def onlyFile (text : List Char) : Path → Except IoError Bytes := fun _ => .ok (Text.utf8 text)

def smallSize : Size := ⟨20, by decide, by decide⟩

def smallJob (input : Path) (filter : Filter) : Job := ⟨input, defaultOutput, ⟨[smallSize], by decide, by decide⟩, filter⟩

def emptyList : List Char := ['s', 'i', 'z', 'e', 's', '=', '[', ']']

def emptyInput : List Char := ['i', 'n', 'p', 'u', 't', '=', '\'', '\'']

theorem loaded_of_document {text : List Char} {es : Toml.Entries} (sizes : List Size) (filter : Option Filter)
    (h : Toml.Document (Toml.Rules.limited false) text es) (hs : ofEntries es = .ok s) :
    (flagsFor sizes filter).Loaded (onlyFile text) s := by
  refine .file rfl rfl ?_
  rw [parse_of_entries (Toml.parse_of_document h), hs]
  rfl

theorem loaded_nothing (sizes : List Size) (filter : Option Filter) :
    (flagsFor sizes filter).Loaded (onlyFile []) empty :=
  loaded_of_document sizes filter ⟨[], [], Or.inl rfl, .done, .nil⟩ rfl

theorem loaded_emptyList (sizes : List Size) (filter : Option Filter) :
    (flagsFor sizes filter).Loaded (onlyFile emptyList) { empty with sizes := some [] } := by
  have hvalue : Toml.ValueAt (Toml.Rules.limited false) Toml.maxDepth ['[', ']'] (.array 2 []) [] :=
    .array (.close (.done _))
  exact loaded_of_document sizes filter
    (Toml.document_of_value "sizes".toList (by decide) (List.all_eq_true.1 rfl) (by decide) hvalue) rfl

theorem loaded_emptyInput (sizes : List Size) (filter : Option Filter) :
    (flagsFor sizes filter).Loaded (onlyFile emptyInput) { empty with input := some [] } := by
  have hvalue : Toml.ValueAt (Toml.Rules.limited false) Toml.maxDepth ['\'', '\''] (.scalar 2 (.string [])) [] :=
    .scalar (.string (.literal (.close [])))
  exact loaded_of_document sizes filter
    (Toml.document_of_value "input".toList (by decide) (List.all_eq_true.1 rfl) (by decide) hvalue) rfl

theorem sameBut_flagsFor (sizes : List Size) (x : Filter) :
    (flagsFor sizes none).SameBut .filter (flagsFor sizes (some x)) := by
  refine ⟨rfl, fun y hy => ?_⟩
  cases y with
  | input | output | sizes => rfl
  | filter => exact absurd rfl hy

theorem sameBut_emptyInput : SameBut .input empty { empty with input := some [] } := by
  intro y hy
  cases y with
  | output | sizes | filter => rfl
  | input => exact absurd rfl hy

/-- An empty list in the file is an error, but not below a size of the flags. A filter of the flags
    changes nothing but the filter, an input in the file nothing but the input. With no such file
    the flags are of no use. -/
theorem an_empty_list_is_covered :
    (∃ e, (flagsFor [] none).resolve (onlyFile emptyList) = .error (.badSizes e)) ∧
    (flagsFor [smallSize] none).resolve (onlyFile emptyList) = .ok (smallJob defaultInput .lanczos3) ∧
    (smallJob defaultInput .lanczos3).SameBut .filter (smallJob defaultInput .nearest) ∧
    (smallJob defaultInput .lanczos3).SameBut .input (smallJob [] .lanczos3) ∧
    (flagsFor [smallSize] none).resolve (fun _ => .error .notFound) = .error (.unreadable .notFound) := by
  have hunfit : Unfit [] := Or.inl rfl
  have hplain : (flagsFor [smallSize] none).resolve (onlyFile []) = .ok (smallJob defaultInput .lanczos3) :=
    (resolve_eq_ok_iff (loaded_nothing _ _)).2 ⟨.default rfl rfl, .default rfl rfl, .flags (by decide), .default rfl rfl⟩
  have hnearest : (flagsFor [smallSize] (some .nearest)).resolve (onlyFile []) = .ok (smallJob defaultInput .nearest) :=
    (resolve_eq_ok_iff (loaded_nothing _ _)).2 ⟨.default rfl rfl, .default rfl rfl, .flags (by decide), .flag rfl⟩
  have hinput : (flagsFor [smallSize] none).resolve (onlyFile emptyInput) = .ok (smallJob [] .lanczos3) :=
    (resolve_eq_ok_iff (loaded_emptyInput _ _)).2 ⟨.file rfl rfl, .default rfl rfl, .flags (by decide), .default rfl rfl⟩
  obtain ⟨-, -, halone, -⟩ := flags_over_file_over_defaults (flagsFor [] none) (onlyFile emptyList)
  obtain ⟨-, -, hcovered, -⟩ := flags_over_file_over_defaults (flagsFor [smallSize] none) (onlyFile emptyList)
  obtain ⟨-, -, -, -, hflags, hfile⟩ := flags_over_file_over_defaults (flagsFor [smallSize] none) (onlyFile [])
  obtain ⟨-, habsent, -⟩ := flags_over_file_over_defaults (flagsFor [smallSize] none) fun _ => .error .notFound
  refine ⟨?_, ?_, ?_, ?_, habsent _ (.unreadable rfl rfl)⟩
  · exact ((halone _ (loaded_emptyList _ _)).2.2 [] rfl hunfit .nil).2 rfl
  · exact ((hcovered _ (loaded_emptyList _ _)).1 _).2
      ⟨.default rfl rfl, .default rfl rfl, .flags (by decide), .default rfl rfl⟩
  · exact hflags _ _ _ _ (sameBut_flagsFor _ _) hplain hnearest
  · exact hfile _ _ _ _ _ _ (loaded_nothing _ _) (loaded_emptyInput _ _) sameBut_emptyInput hplain hinput

end Settings

end IconMaker
