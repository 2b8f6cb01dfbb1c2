import IconMaker.Proofs.CommandLine.Grammar
import IconMaker.Proofs.Conversion.Output
import IconMaker.Proofs.Settings.Layers
import IconMaker.Proofs.Settings.Values

/-
  IconMaker.Proofs.Settings.Sizes — the sizes of a job, from where they are said to the icon.

  Sizes are said in arguments, in a file as numbers or texts, or not at all.
  - `given_of_resolve`: a job has the sizes that the first of these says, in that order.
  - `fit_sizeList` / `exists_icon`: they fit an icon, and the directory of an icon that has them
    tells its entries apart.
  - `every_job_fits_an_icon`: both, whatever the arguments and the file are. There are only 256
    sizes, so a longer list has two alike and no job comes of it.
-/

namespace IconMaker.Settings

open CommandLine

/-! ## Sizes as they are said -/

/-- The sizes that count, taken one by one from the arguments, else from the array in the file that
    the arguments name, else the default ones. -/
inductive GivenSizes (arguments : List Bytes) (read : Path → Except IoError Bytes) : List Size → Prop
  | line {os : List (Opt × Bytes)} {ns : List Size} : Line os arguments → given .size os ≠ [] →
      List.Forall₂ GivesSize (given .size os) ns → GivenSizes arguments read ns
  | file {os : List (Opt × Bytes)} {p : Path} {text : List Char} {es : Toml.Entries} {k : Toml.Key} {v : Toml.Value}
      {vs : List Toml.Value} {ns : List Size} : Line os arguments → given .size os = [] → given .config os = [p] →
      read p = .ok (Text.utf8 text) → Toml.parse text = some es → (k, v) ∈ es → k.name = "sizes".toList →
      Listed v vs → List.Forall₂ IsSize vs ns → GivenSizes arguments read ns
  | default {os : List (Opt × Bytes)} : Line os arguments → given .size os = [] →
      (∀ p text es e, given .config os = [p] → read p = .ok (Text.utf8 text) → Toml.parse text = some es → e ∈ es →
        e.1.name ≠ "sizes".toList) →
      GivenSizes arguments read SizeList.default.sizes

/-- An entry sets the sizes if it is the one for them, and leaves them otherwise. -/
theorem sizes_of_sets {k : Toml.Key} {v : Toml.Value} {s s' : Settings} (h : Sets k v s s') :
    (k.name ≠ "sizes".toList ∧ s'.sizes = s.sizes) ∨
    k.name = "sizes".toList ∧ ∃ vs ns, Listed v vs ∧ List.Forall₂ IsSize vs ns ∧ s'.sizes = some ns := by
  cases h with
  | input hk | output hk | filter hk => exact Or.inl ⟨by rw [hk]; decide, rfl⟩
  | sizes hk hvs hns => exact Or.inr ⟨hk, _, _, hvs, hns, rfl⟩

theorem sizes_of_verdict {es : Toml.Entries} {s s' : Settings} (h : Verdict s es (.ok s')) :
    ((∀ e ∈ es, e.1.name ≠ "sizes".toList) ∧ s'.sizes = s.sizes) ∨
    ∃ k v vs ns, (k, v) ∈ es ∧ k.name = "sizes".toList ∧ Listed v vs ∧ List.Forall₂ IsSize vs ns ∧
      s'.sizes = some ns := by
  induction es generalizing s with
  | nil =>
    cases h
    exact Or.inl ⟨fun _ he => absurd he List.not_mem_nil, rfl⟩
  | cons e es ih =>
    cases h with
    | @sets _ s₁ k v _ _ hset hes =>
      rcases ih hes with ⟨hnone, hkept⟩ | ⟨k', v', vs, ns, hmem, hk, hvs, hns, hs⟩
      · rcases sizes_of_sets hset with ⟨hk, hfirst⟩ | ⟨hk, vs, ns, hvs, hns, hs⟩
        · exact Or.inl ⟨List.forall_mem_cons.2 ⟨hk, hnone⟩, hkept.trans hfirst⟩
        · exact Or.inr ⟨k, v, vs, ns, List.mem_cons_self .., hk, hvs, hns, hkept.trans hs⟩
      · exact Or.inr ⟨k', v', vs, ns, List.mem_cons_of_mem _ hmem, hk, hvs, hns, hs⟩

variable {arguments : List Bytes} {read : Path → Except IoError Bytes} {f : Flags} {s : Settings} {job : Job}
  {l : List Size}

theorem verdict_of_parse {text : List Char} {es : Toml.Entries} (hes : Toml.parse text = some es)
    (h : Settings.parse text = .ok s) : Verdict .empty es (.ok s) := by
  rw [parse_of_entries hes, told_eq_ok_iff] at h
  exact ofEntries_iff.1 h

theorem exists_entries {text : List Char} (h : Settings.parse text = .ok s) : ∃ es, Toml.parse text = some es := by
  cases hes : Toml.parse text with
  | some es => exact ⟨es, rfl⟩
  | none =>
    rw [Settings.parse, hes] at h
    cases h

theorem given_of_effective (hf : CommandLine.read arguments = .ok f) (hs : f.Loaded read s)
    (hl : Effective f.sizes s.sizes l) : GivenSizes arguments read l := by
  obtain ⟨os, hline, haccepted⟩ := exists_spelled hf
  have hgives : Gives os f := gives_iff.2 haccepted
  have hsizes : List.Forall₂ GivesSize (given .size os) f.sizes := hgives .size
  have hconfig : given .config os = f.config.toList := (hgives .config).1
  have hnone : f.sizes = [] → given .size os = [] := by
    intro hnil
    rw [hnil] at hsizes
    exact List.forall₂_nil_right_iff.1 hsizes
  cases hl with
  | flags hne =>
    refine .line hline (fun hnil => ?_) hsizes
    rw [hnil] at hsizes
    exact hne (List.forall₂_nil_left_iff.1 hsizes)
  | file hnil hfile =>
    cases hs with
    | none => cases hfile
    | @file p text _ hp hread hparse =>
      obtain ⟨es, hes⟩ := exists_entries hparse
      rcases sizes_of_verdict (verdict_of_parse hes hparse) with ⟨-, hkept⟩ | ⟨k, v, vs, ns, hmem, hk, hvs, hns, hset⟩
      · rw [hfile] at hkept
        cases hkept
      · rw [hfile, Option.some.injEq] at hset
        subst hset
        exact .file hline (hnone hnil) (by rw [hconfig, hp]; rfl) hread hes hmem hk hvs hns
  | default hnil hfile =>
    refine .default hline (hnone hnil) fun p text es e hp hread hes he => ?_
    rw [hconfig, Option.toList_eq_singleton_iff] at hp
    cases hs with
    | none hp' =>
      rw [hp] at hp'
      cases hp'
    | @file p' text' _ hp' hread' hparse =>
      rw [hp, Option.some.injEq] at hp'
      subst hp'
      rw [hread, Except.ok.injEq] at hread'
      have htext : text = text' := Text.utf8_injective hread'
      subst htext
      rcases sizes_of_verdict (verdict_of_parse hes hparse) with ⟨hno, -⟩ | ⟨k, v, vs, ns, -, -, -, -, hset⟩
      · exact hno e he
      · rw [hfile] at hset
        cases hset

/-- A job has the sizes that were given, in their order. -/
theorem given_of_resolve (hf : CommandLine.read arguments = .ok f) (hjob : f.resolve read = .ok job) :
    GivenSizes arguments read job.sizes.sizes := by
  rcases unloadable_or_loaded f read with ⟨e, he⟩ | ⟨s, hs⟩
  · rw [resolve_of_unloadable he] at hjob
    cases hjob
  · exact given_of_effective hf hs ((resolve_eq_ok_iff hs).1 hjob).sizes

/-! ## Sizes in an icon -/

/-- Edges that the entries of an icon can have: some, no two alike, each in the range of a byte of
    the directory, and not too many. -/
structure Fit (edges : List Nat) : Prop where
  nonempty : edges ≠ []
  distinct : ∀ i j, i < j → j < edges.length → edges[i]? ≠ edges[j]?
  range : ∀ n ∈ edges, 1 ≤ n ∧ n ≤ 256
  few : edges.length ≤ 256

/-- No two of the first `n` records have the same byte for a side. -/
structure TellsApart (icon : Bytes) (n : Nat) : Prop where
  widths : ∀ i j, i < j → j < n → icon.number (Icon.recordPlace i) 1 ≠ icon.number (Icon.recordPlace j) 1
  heights : ∀ i j, i < j → j < n → icon.number (Icon.recordPlace i + 1) 1 ≠ icon.number (Icon.recordPlace j + 1) 1

/-- An icon with an entry of each size can be made of every image, and its directory counts the
    entries, states their edges and tells them apart. -/
def MakesIcons (sizes : SizeList) : Prop :=
  ∀ image filter, ∃ frames icon, renderFrames image filter sizes = .ok frames ∧ Icon.encode frames = some icon ∧
    Icon.Describes icon sizes.edges ∧ TellsApart icon sizes.edges.length

theorem fit_sizeList (sizes : SizeList) : Fit sizes.edges := by
  have hlength : sizes.edges.length = sizes.sizes.length := List.length_map _
  have hnodup : sizes.edges.Nodup := List.Pairwise.map Size.edge (fun _ _ hne he => hne (Size.ext he)) sizes.distinct
  refine ⟨fun hnil => sizes.nonempty (List.map_eq_nil_iff.1 hnil), fun i j hij hj => ?_, fun n hn => ?_, ?_⟩
  · exact List.nodup_iff_getElem?_ne_getElem?.1 hnodup i j hij hj
  · obtain ⟨s, -, rfl⟩ := List.mem_map.1 hn
    exact ⟨s.pos, s.le_max⟩
  · rw [hlength]
    exact sizes.length_le

/-- Different edges are different as bytes, with 256 as 0. -/
theorem edgeByte_ne {m n : Nat} (hm : 1 ≤ m ∧ m ≤ 256) (hn : 1 ≤ n ∧ n ≤ 256) (hne : m ≠ n) :
    Icon.edgeByte m ≠ Icon.edgeByte n := by
  unfold Icon.edgeByte
  split <;> split <;> omega

theorem tellsApart_of_describes {icon : Bytes} {edges : List Nat} (hfit : Fit edges) (h : Icon.Describes icon edges) :
    TellsApart icon edges.length := by
  have hbytes : ∀ i j, i < j → j < edges.length → ∃ m n, edges[i]? = some m ∧ edges[j]? = some n ∧
      Icon.edgeByte m ≠ Icon.edgeByte n := by
    intro i j hij hj
    have hi : i < edges.length := by omega
    have hne := hfit.distinct i j hij hj
    rw [List.getElem?_eq_getElem hi, List.getElem?_eq_getElem hj] at hne
    refine ⟨_, _, List.getElem?_eq_getElem hi, List.getElem?_eq_getElem hj, ?_⟩
    exact edgeByte_ne (hfit.range _ (List.getElem_mem hi)) (hfit.range _ (List.getElem_mem hj)) fun e => hne (by rw [e])
  constructor
  · intro i j hij hj
    obtain ⟨m, n, hm, hn, hne⟩ := hbytes i j hij hj
    rw [h.width i m hm, h.width j n hn]
    exact hne
  · intro i j hij hj
    obtain ⟨m, n, hm, hn, hne⟩ := hbytes i j hij hj
    rw [h.height i m hm, h.height j n hn]
    exact hne

theorem makesIcons (sizes : SizeList) : MakesIcons sizes := by
  intro image filter
  obtain ⟨icon, hicon⟩ := Icon.exists_encode image filter sizes
  have hfit := fit_sizeList sizes
  have hdescribes : Icon.Describes icon sizes.edges :=
    Icon.describes_encode hicon (by rw [List.map_map]; rfl) (by rw [List.map_map]; rfl) hfit.range
  exact ⟨_, icon, renderFrames_eq image filter sizes, hicon, hdescribes, tellsApart_of_describes hfit hdescribes⟩

/-! ## Jobs -/

theorem unfit_of_long (h : 256 < l.length) : Unfit l := by
  refine Or.inr fun hnodup => ?_
  have := SizeList.length_le_of_nodup hnodup
  omega

/-- The sizes of every job are those that were given, in their order, and fit an icon: there are
    some, from 1 to 256 and no two alike, and so at most 256. The directory of the icon counts
    them and tells them apart. However long the list is that counts, no job comes of it if it is
    longer. The default job is no different. -/
theorem every_job_fits_an_icon (arguments : List Bytes) (read : Path → Except IoError Bytes) :
    (∀ f job, CommandLine.read arguments = .ok f → f.resolve read = .ok job →
      GivenSizes arguments read job.sizes.sizes ∧ Fit job.sizes.edges ∧ MakesIcons job.sizes) ∧
    (∀ f s l, CommandLine.read arguments = .ok f → f.Loaded read s → Effective f.sizes s.sizes l → 256 < l.length →
      GivenSizes arguments read l ∧ ∃ e, f.resolve read = .error (.badSizes e)) ∧
    ∃ job, Settings.empty.job = .ok job ∧ job.sizes.edges = [256, 128, 64, 48, 32, 16] ∧ Fit job.sizes.edges ∧
      MakesIcons job.sizes := by
  refine ⟨fun f job hf hjob => ?_, fun f s l hf hs hl hlong => ?_, ?_⟩
  · exact ⟨given_of_resolve hf hjob, fit_sizeList job.sizes, makesIcons job.sizes⟩
  · exact ⟨given_of_effective hf hs hl, (exists_badSizes_iff hs).2 ⟨l, hl, unfit_of_long hlong⟩⟩
  · exact ⟨_, rfl, rfl, fit_sizeList _, makesIcons _⟩

/-- An argument for each of the sizes. -/
def sizesAsArguments (ns : List Size) : List Bytes := (ns.map Size.text).map Opt.size.saying

theorem read_sizesAsArguments (ns : List Size) :
    CommandLine.read (sizesAsArguments ns) = .ok { Flags.empty with sizes := ns } := by
  have hsizes : AreSizes (ns.map Size.text) ns :=
    List.forall₂_map_left_iff.2 (List.forall₂_same.2 fun s _ => Size.parse_text s)
  rw [sizesAsArguments, read_sizes, mapM_of_areSizes hsizes]
  rfl

/-- Sizes in falling order stay in it. One size said 257 times is no job. -/
theorem falling_sizes_fit_an_icon :
    (∃ job, Flags.resolve { Flags.empty with sizes := [⟨256, by decide, by decide⟩, ⟨1, by decide, by decide⟩] }
        (fun _ => .error .notFound) = .ok job ∧ job.sizes.edges = [256, 1] ∧ Fit job.sizes.edges ∧
        MakesIcons job.sizes) ∧
    256 < (List.replicate 257 smallSize).length ∧
    ∃ e, Flags.resolve { Flags.empty with sizes := List.replicate 257 smallSize } (fun _ => .error .notFound) =
      .error (.badSizes e) := by
  obtain ⟨hjobs, -, -⟩ := every_job_fits_an_icon
    (sizesAsArguments [⟨256, by decide, by decide⟩, ⟨1, by decide, by decide⟩]) fun _ => .error .notFound
  obtain ⟨-, hlong, -⟩ := every_job_fits_an_icon (sizesAsArguments (List.replicate 257 smallSize))
    fun _ => .error .notFound
  have hlength : 256 < (List.replicate 257 smallSize).length := by
    rw [List.length_replicate]
    decide
  have hne : List.replicate 257 smallSize ≠ [] := List.cons_ne_nil _ _
  refine ⟨⟨_, rfl, rfl, (hjobs _ _ (read_sizesAsArguments _) rfl).2⟩, hlength, ?_⟩
  exact (hlong _ _ _ (read_sizesAsArguments _) (.none rfl) (.flags hne) hlength).2

end IconMaker.Settings
