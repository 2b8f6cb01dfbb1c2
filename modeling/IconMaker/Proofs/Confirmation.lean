import IconMaker.Proofs.CommandLine.Grammar
import IconMaker.Proofs.Path
import IconMaker.Proofs.Run

/-
  IconMaker.Proofs.Confirmation — what is printed after a conversion.

  (1) The names. A report has the input's name before the output's, each as `Path.ShownAs` says,
      so nothing but the two names has a say in it (`reports_name_their_files`).
  (2) The line. The names are printed as they are, not quoted as in the messages of errors. So a
      control character or a line break in a name is printed too, and what is printed is one line
      exactly if the names have none (`confirmations_are_as_tame_as_the_names`). A name may have
      them (`a_line_feed_in_a_name_is_printed`), but a byte that is no character is none
      (`broken_names_make_one_line`).
-/

namespace IconMaker

/-! ## (1) The names -/

namespace Report

variable {r : Report} {a b : List Char}

theorem text_of_shownAs (ha : Path.ShownAs r.input a) (hb : Path.ShownAs r.output b) :
    r.text = "Converted ".toList ++ a ++ " to ".toList ++ b ++ " with multiple sizes".toList := by
  unfold text
  simp only [Path.displayName_eq_iff.2 ha, Path.displayName_eq_iff.2 hb]

/-- A report shows the names of its input and its output in this order. What is shown of a path
    is its last component, whatever leads to it and whatever idle tail it has, and the whole path
    if that is idle or leads up at its end; in both, U+FFFD stands for each run of bytes that is
    no character, and undamaged text for itself. -/
theorem reports_name_their_files :
    (∀ (r : Report) a b, Path.ShownAs r.input a → Path.ShownAs r.output b →
      r.text = "Converted ".toList ++ a ++ " to ".toList ++ b ++ " with multiple sizes".toList) ∧
    (∀ p, ∃! a, Path.ShownAs p a) ∧
    (∀ d n tail a, Path.IsLead d → Path.IsName n → Path.IsTail tail →
      (Path.ShownAs (d ++ n ++ tail) a ↔ Text.Replaced n a)) ∧
    (∀ p, ¬ Path.HasName p ↔ Path.IsIdle p ∨ Path.EndsIn p [Path.dot, Path.dot]) ∧
    (∀ p a, ¬ Path.HasName p → (Path.ShownAs p a ↔ Text.Replaced p a)) ∧
    (∀ s t, Text.Replaced (Text.utf8 s) t ↔ t = s) :=
  ⟨fun _ _ _ ha hb => text_of_shownAs ha hb, Path.existsUnique_shownAs,
    fun d _ tail _ hd hn htail => Path.shownAs_iff_of_endsIn ⟨d, tail, hd, htail, rfl⟩ hn,
    fun _ => Path.not_hasName_iff, fun _ _ hp => Path.shownAs_iff_of_not_hasName hp,
    fun _ _ => Text.replaced_utf8_iff⟩

/-- `a` and two bytes of a character of three. -/
def cutShort : Bytes := [0x61, 0xe2, 0x82]

/-- It stands behind a byte that is no text, and in front of a tail. -/
def cutReport : Report where
  input := [Path.slash, 0xff, Path.slash] ++ cutShort ++ [Path.slash, Path.dot, Path.slash]
  output := Text.utf8 ['.', '.', '/', '.', '.']
  sizes := Conversion.onePixelJob.sizes
  bytes := 95

theorem replaced_cutShort : Text.Replaced cutShort ['a', Text.replacement] := by
  rw [Text.replaced_iff]
  cbv

/-- The two bytes are shown as one U+FFFD. The output has no name and is shown whole. -/
theorem a_damaged_name_is_shown :
    Path.EndsIn cutReport.input cutShort ∧ Path.IsName cutShort ∧ ¬ Path.HasName cutReport.output ∧
    cutReport.text = "Converted ".toList ++ ['a', Text.replacement] ++ " to ".toList ++ ['.', '.', '/', '.', '.'] ++
      " with multiple sizes".toList := by
  obtain ⟨htext, -, hname, hnone, hwhole, hundamaged⟩ := reports_name_their_files
  have hlead : Path.IsLead [Path.slash, 0xff, Path.slash] := Or.inr ⟨[Path.slash, 0xff], rfl⟩
  have hcut : Path.IsName cutShort := ⟨by decide, by decide, by decide, by decide⟩
  have htail : Path.IsTail [Path.slash, Path.dot, Path.slash] := .dot (.slash .nil)
  have hup : Path.EndsIn cutReport.output [Path.dot, Path.dot] :=
    ⟨[Path.dot, Path.dot, Path.slash], [], Or.inr ⟨[Path.dot, Path.dot], rfl⟩, .nil, by decide⟩
  have hnameless : ¬ Path.HasName cutReport.output := (hnone _).2 (Or.inr hup)
  have hinput : Path.ShownAs cutReport.input ['a', Text.replacement] :=
    (hname _ _ _ _ hlead hcut htail).2 replaced_cutShort
  have houtput : Path.ShownAs cutReport.output ['.', '.', '/', '.', '.'] :=
    (hwhole _ _ hnameless).2 ((hundamaged _ _).2 rfl)
  exact ⟨⟨_, _, hlead, htail, rfl⟩, hcut, hnameless, htext _ _ _ hinput houtput⟩

end Report

/-! ## (2) The line -/

namespace Text

variable {c : Char} {bs : Bytes} {t : List Char}

/-- A control character, or one of the two separators that end a line or a paragraph. -/
def Disrupts (c : Char) : Prop :=
  c.toNat < 0x20 ∨ (0x7f ≤ c.toNat ∧ c.toNat ≤ 0x9f) ∨ c.toNat = 0x2028 ∨ c.toNat = 0x2029

instance : DecidablePred Disrupts := fun _ => inferInstanceAs (Decidable (_ ∨ (_ ∧ _) ∨ _ ∨ _))

/-- A text that a line feed ends, and nothing that disrupts a line before it. -/
def OneLine (t : List Char) : Prop := ∃ line, t = line ++ ['\n'] ∧ ∀ c ∈ line, ¬ Disrupts c

/-- No character that disrupts a line has its encoding in the bytes. -/
def Tame (bs : Bytes) : Prop := ∀ c, Disrupts c → ¬ String.utf8EncodeChar c <:+: bs

theorem oneLine_append_iff : OneLine (t ++ ['\n']) ↔ ∀ c ∈ t, ¬ Disrupts c := by
  constructor
  · rintro ⟨line, h, hline⟩
    rwa [List.append_cancel_right h]
  · intro h
    exact ⟨t, rfl, h⟩

theorem not_disrupts_replacement : ¬ Disrupts replacement := by decide

theorem mem_lossy_of_disrupts (hc : Disrupts c) : c ∈ lossy bs ↔ String.utf8EncodeChar c <:+: bs := by
  refine mem_lossy_iff fun h => not_disrupts_replacement ?_
  rwa [h] at hc

theorem tame_iff : Tame bs ↔ ∀ c ∈ lossy bs, ¬ Disrupts c := by
  constructor
  · intro h c hc hd
    exact h c hd ((mem_lossy_of_disrupts hd).1 hc)
  · intro h c hd hc
    exact h c ((mem_lossy_of_disrupts hd).2 hc) hd

end Text

namespace Report

variable {r : Report} {c : Char}

theorem tame_words :
    ∀ c ∈ "Converted ".toList ++ " to ".toList ++ " with multiple sizes".toList, ¬ Text.Disrupts c := by
  simp [Text.Disrupts]

/-- The words around the names disrupt nothing, so only the names can. -/
theorem mem_text_of_disrupts (hc : Text.Disrupts c) : c ∈ r.text ↔
    String.utf8EncodeChar c <:+: Path.shownPart r.input ∨ String.utf8EncodeChar c <:+: Path.shownPart r.output := by
  have hwords : c ∉ "Converted ".toList ++ " to ".toList ++ " with multiple sizes".toList := fun hmem =>
    tame_words c hmem hc
  simp only [List.mem_append, not_or] at hwords
  rw [← Text.mem_lossy_of_disrupts hc, ← Text.mem_lossy_of_disrupts hc]
  change _ ↔ c ∈ Path.displayName r.input ∨ c ∈ Path.displayName r.output
  unfold text
  simp only [List.mem_append, hwords, false_or, or_false]

theorem oneLine_text_iff : Text.OneLine (r.text ++ ['\n']) ↔
    Text.Tame (Path.shownPart r.input) ∧ Text.Tame (Path.shownPart r.output) := by
  rw [Text.oneLine_append_iff]
  constructor
  · intro h
    refine ⟨fun c hd hc => h c ?_ hd, fun c hd hc => h c ?_ hd⟩
    · exact (mem_text_of_disrupts hd).2 (Or.inl hc)
    · exact (mem_text_of_disrupts hd).2 (Or.inr hc)
  · rintro ⟨hin, hout⟩ c hc hd
    rcases (mem_text_of_disrupts hd).1 hc with h | h
    · exact hin c hd h
    · exact hout c hd h

end Report

namespace Run

open Conversion (onePixel onePixelJob anyone)

variable {h : Host} {arguments : List Bytes} {fs : Files} {f : Flags}

/-- A run that ends with exit code 0 and had an accepted command line has done its job. -/
theorem stdout_of_success [Png.LawfulWriter] (hf : CommandLine.read arguments = .ok f)
    (hcode : (execute h arguments fs).1.exitCode = 0) :
    ∃ job n, f.resolve ((openLog h fs).2.read h.caller.cwd) = .ok job ∧
      (execute h arguments fs).1.stdout = (Report.of job n).text ++ ['\n'] := by
  rw [execute_of_ok hf, perform_eq] at hcode ⊢
  cases hjob : f.resolve ((openLog h fs).2.read h.caller.cwd) with
  | error e =>
    rw [hjob] at hcode
    cases hcode
  | ok job =>
    simp only [hjob] at hcode ⊢
    rcases Conversion.convert_cases job h.caller h.weather (openLog h fs).2 with
      ⟨e, hc⟩ | ⟨image, icon, fs', hc, -⟩
    · rw [hc] at hcode
      cases hcode
    · rw [hc]
      exact ⟨job, icon.length, rfl, rfl⟩

/-- A run that converts prints its report and a line feed. A character that disrupts the line is
    printed if its encoding occurs in what is shown of the input's or the output's path, and not
    otherwise, so what is printed is one line exactly if both are tame. -/
theorem confirmations_are_as_tame_as_the_names [Png.LawfulWriter] (hf : CommandLine.read arguments = .ok f)
    (hcode : (execute h arguments fs).1.exitCode = 0) :
    ∃ job n, f.resolve ((openLog h fs).2.read h.caller.cwd) = .ok job ∧
      (execute h arguments fs).1.stdout = (Report.of job n).text ++ ['\n'] ∧
      (∀ c, Text.Disrupts c → (c ∈ (Report.of job n).text ↔
        String.utf8EncodeChar c <:+: Path.shownPart job.input ∨
          String.utf8EncodeChar c <:+: Path.shownPart job.output)) ∧
      (Text.OneLine (execute h arguments fs).1.stdout ↔
        Text.Tame (Path.shownPart job.input) ∧ Text.Tame (Path.shownPart job.output)) := by
  obtain ⟨job, n, hjob, hout⟩ := stdout_of_success hf hcode
  refine ⟨job, n, hjob, hout, fun c hc => Report.mem_text_of_disrupts hc, ?_⟩
  rw [hout]
  exact Report.oneLine_text_iff

/-! ### Two runs -/

/-- Nothing fails, and no log filter is set. -/
def calmHost : Host := ⟨anyone, [], none, .calm⟩

/-- In the root, a PNG file of one pixel. -/
def pixelNamed (n : Name) : Files := ⟨[([n], .file 0o600#12 onePixel)]⟩

/-- From one name to another, one entry of one pixel. -/
def lineNaming (input output : Name) : List Bytes :=
  [CommandLine.argument "-i", input, CommandLine.argument "-o", output, CommandLine.argument "-s1"]

def flagsNaming (input output : Name) : Flags := ⟨some input, some output, none, onePixelJob.sizes.sizes, none⟩

def jobNaming (input output : Name) : Job := ⟨input, output, onePixelJob.sizes, .lanczos3⟩

theorem resolve_naming (input output : Name) (read : Path → Except IoError Bytes) :
    (flagsNaming input output).resolve read = .ok (jobNaming input output) := rfl

theorem outcome_naming {input output : Name} {n : Nat}
    (hf : CommandLine.read (lineNaming input output) = .ok (flagsNaming input output))
    (hc : (convert (jobNaming input output) calmHost.caller calmHost.weather
      (openLog calmHost (pixelNamed input)).2).1 = .ok (Report.of (jobNaming input output) n)) :
    (execute calmHost (lineNaming input output) (pixelNamed input)).1.exitCode = 0 ∧
      (execute calmHost (lineNaming input output) (pixelNamed input)).1.stdout =
        (Report.of (jobNaming input output) n).text ++ ['\n'] := by
  rw [execute_of_ok hf, perform_eq, resolve_naming]
  simp only [hc]
  exact ⟨rfl, rfl⟩

/-- `a` and the first byte of a character of two. -/
def cutName : Name := [0x61, 0xc2]

/-- A byte that is a control character in other encodings. -/
def bareName : Name := [0x9b]

theorem read_cut : CommandLine.read (lineNaming cutName bareName) = .ok (flagsNaming cutName bareName) := by cbv

theorem outcome_cut : (execute calmHost (lineNaming cutName bareName) (pixelNamed cutName)).1.exitCode = 0 ∧
    (execute calmHost (lineNaming cutName bareName) (pixelNamed cutName)).1.stdout =
      (Report.of (jobNaming cutName bareName) 95).text ++ ['\n'] :=
  outcome_naming read_cut (by cbv)

theorem tame_cut : Text.Tame cutName ∧ Text.Tame bareName := by
  have hcut : Text.lossy cutName = ['a', Text.replacement] := by cbv
  have hbare : Text.lossy bareName = [Text.replacement] := by cbv
  rw [Text.tame_iff, Text.tame_iff, hcut, hbare]
  simp only [List.forall_mem_cons, List.not_mem_nil, false_imp_iff, implies_true, and_true]
  exact ⟨⟨by decide, Text.not_disrupts_replacement⟩, Text.not_disrupts_replacement⟩

/-- Bytes that are no characters disrupt nothing, also where they would be half of a control
    character, or one in another encoding. -/
theorem broken_names_make_one_line :
    CommandLine.read (lineNaming cutName bareName) = .ok (flagsNaming cutName bareName) ∧
    (execute calmHost (lineNaming cutName bareName) (pixelNamed cutName)).1.exitCode = 0 ∧
    Text.OneLine (execute calmHost (lineNaming cutName bareName) (pixelNamed cutName)).1.stdout := by
  obtain ⟨job, n, hjob, -, -, hline⟩ := confirmations_are_as_tame_as_the_names read_cut outcome_cut.1
  rw [resolve_naming] at hjob
  cases hjob
  have hinput : Path.shownPart cutName = cutName := by cbv
  have houtput : Path.shownPart bareName = bareName := by cbv
  have htame : Text.Tame (Path.shownPart cutName) ∧ Text.Tame (Path.shownPart bareName) := by
    rw [hinput, houtput]
    exact tame_cut
  exact ⟨read_cut, outcome_cut.1, hline.2 htame⟩

/-- A line feed between two letters. -/
def feedName : Name := [0x61, 0x0a, 0x62]

theorem read_feed : CommandLine.read (lineNaming feedName [0x63]) = .ok (flagsNaming feedName [0x63]) := by cbv

theorem outcome_feed : (execute calmHost (lineNaming feedName [0x63]) (pixelNamed feedName)).1.exitCode = 0 ∧
    (execute calmHost (lineNaming feedName [0x63]) (pixelNamed feedName)).1.stdout =
      (Report.of (jobNaming feedName [0x63]) 95).text ++ ['\n'] :=
  outcome_naming read_feed (by cbv)

theorem text_feed : (Report.of (jobNaming feedName [0x63]) 95).text =
    "Converted ".toList ++ ['a', '\n', 'b'] ++ " to ".toList ++ ['c'] ++ " with multiple sizes".toList := by
  have hinput : Path.displayName feedName = ['a', '\n', 'b'] := by cbv
  have houtput : Path.displayName [0x63] = ['c'] := by cbv
  unfold Report.text
  simp only [Report.of, jobNaming, hinput, houtput]

/-- The line feed in the input's name is printed, and there are two lines. -/
theorem a_line_feed_in_a_name_is_printed :
    CommandLine.read (lineNaming feedName [0x63]) = .ok (flagsNaming feedName [0x63]) ∧
    (execute calmHost (lineNaming feedName [0x63]) (pixelNamed feedName)).1.exitCode = 0 ∧
    (execute calmHost (lineNaming feedName [0x63]) (pixelNamed feedName)).1.stdout =
      "Converted ".toList ++ ['a', '\n', 'b'] ++ " to ".toList ++ ['c'] ++ " with multiple sizes".toList ++ ['\n'] ∧
    ¬ Text.OneLine (execute calmHost (lineNaming feedName [0x63]) (pixelNamed feedName)).1.stdout := by
  obtain ⟨hcode, hout⟩ := outcome_feed
  rw [text_feed] at hout
  refine ⟨read_feed, hcode, hout, ?_⟩
  rw [hout, Text.oneLine_append_iff]
  intro h
  exact h '\n' (by simp) (by decide)

end Run

end IconMaker
