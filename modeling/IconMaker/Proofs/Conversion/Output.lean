import IconMaker.Proofs.Conversion.Ready

/-
  IconMaker.Proofs.Conversion.Output — what a conversion that succeeds leaves behind.

  `outputs_show_every_size`: the file in the output's place is an icon with one entry for each
  size, in the order of the sizes, that shows the image in this size (`Icon.Shows`). On the way
  from the entries into the file nothing is added and nothing lost (`alone_of_steps`).
-/

namespace IconMaker

namespace Conversion

variable {job : Job} {caller : Caller} {fs fs' : Files}

/-! ## Icons of jobs -/

section

variable [Png.LawfulWriter]

theorem exists_image_of_iconOf {r : Except IoError Bytes} {icon : Bytes} (h : iconOf job r = some icon) :
    ∃ image, loadImage job.input r = .ok image ∧
      Icon.encode (job.sizes.sizes.map (entry image job.filter)) = some icon := by
  unfold iconOf prepare at h
  cases hl : loadImage job.input r with
  | error e => simp [hl] at h
  | ok image =>
    simp only [hl, renderFrames_eq] at h
    exact ⟨image, rfl, h⟩

/-- The icon of a job shows the image that was read. -/
theorem exists_shows_of_iconOf {r : Except IoError Bytes} {icon : Bytes} (h : iconOf job r = some icon) :
    ∃ image, loadImage job.input r = .ok image ∧ Icon.Shows icon job.sizes (entryImage image job.filter) := by
  obtain ⟨image, himage, hencode⟩ := exists_image_of_iconOf h
  exact ⟨image, himage, Icon.shows_of_entries (inRange_loadImage himage) hencode⟩

/-- A conversion changes nothing, or puts the icon of the image that it read in the place of
    the output. -/
theorem convert_cases (job : Job) (caller : Caller) (w : Weather) (fs : Files) :
    (∃ e, convert job caller w fs = (.error e, fs)) ∨
    ∃ image icon fs', convert job caller w fs = (.ok (Report.of job icon.length), fs') ∧
      loadImage job.input (fs.read caller.cwd job.input) = .ok image ∧ Replaced job caller fs icon fs' ∧
      Icon.Shows icon job.sizes (entryImage image job.filter) := by
  rcases convert_outcome job caller w fs with ⟨e, he⟩ | ⟨icon, fs', hok, hicon, hreplaced⟩
  · exact Or.inl ⟨e, he⟩
  · obtain ⟨image, himage, hshows⟩ := exists_shows_of_iconOf hicon
    exact Or.inr ⟨image, icon, fs', hok, himage, hreplaced, hshows⟩

end

/-! ## Outputs -/

/-- The entry that the output's path named before has this content, and the path leads to it, unless
    the way to its directory comes through what was in its place. Whoever can read the path reads
    the content. -/
structure Delivered (job : Job) (caller : Caller) (fs fs' : Files) (icon : Bytes) : Prop where
  entry : ∃ place mode, fs.moveTarget caller.cwd job.output = .ok place ∧ fs'.get? place = some (.file mode icon) ∧
    (place ∉ fs.trailOf caller.cwd (Path.directory job.output) → fs'.resolve caller.cwd true job.output = .ok place)
  read : ∀ bs, fs'.read caller.cwd job.output = .ok bs → bs = icon

theorem get?_output {icon : Bytes} {p : Place} (h : Replaced job caller fs icon fs')
    (hp : fs.moveTarget caller.cwd job.output = .ok p) : ∃ m, fs'.get? p = some (.file m icon) := by
  obtain ⟨target, m, ht, -, rfl⟩ := h
  rw [ht] at hp
  cases hp
  rw [Files.get?_put (Files.moveTarget_ne_nil ht), if_pos rfl]
  exact ⟨m, rfl⟩

theorem get?_elsewhere {icon : Bytes} {p : Place} (h : Replaced job caller fs icon fs')
    (hp : fs.moveTarget caller.cwd job.output ≠ .ok p) : fs'.get? p = fs.get? p := by
  obtain ⟨target, m, ht, -, rfl⟩ := h
  rw [Files.get?_put (Files.moveTarget_ne_nil ht), if_neg]
  intro e
  subst e
  exact hp ht

/-- The icon is still there after a change elsewhere that keeps the ways. -/
theorem delivered_of_ways {start after : Files} {icon : Bytes} (h : Replaced job caller fs icon fs')
    (hstart : start.SameWays fs) (hafter : fs'.SameWays after)
    (hkept : ∀ p, fs.moveTarget caller.cwd job.output = .ok p → after.get? p = fs'.get? p) :
    Delivered job caller start after icon := by
  obtain ⟨target, m, ht, -, rfl⟩ := h
  have hfile : after.get? target = some (.file m icon) := by
    rw [hkept target ht, Files.get?_put (Files.moveTarget_ne_nil ht), if_pos rfl]
  refine ⟨⟨target, m, Files.moveTarget_eq hstart.symm ht, hfile, fun hway => ?_⟩, fun bs hr => ?_⟩
  · rw [Files.trailOf, ← hstart.trail_eq] at hway
    exact Files.resolve_eq hafter (Files.resolve_put_of_trail ht hway)
  obtain ⟨p, mode, hp, hread⟩ := Files.exists_of_read hr
  have he : p = target := Files.resolve_put ht (Files.resolve_eq hafter.symm hp)
  rw [he, hfile] at hread
  cases hread
  rfl

theorem delivered_of_replaced {icon : Bytes} (h : Replaced job caller fs icon fs') : Delivered job caller fs fs' icon :=
  delivered_of_ways h (.refl fs) (.refl fs') fun _ _ => rfl

theorem outputs_show_every_size [Png.LawfulWriter] {w : Weather} {report : Report}
    (h : convert job caller w fs = (.ok report, fs')) :
    ∃ image icon, loadImage job.input (fs.read caller.cwd job.input) = .ok image ∧
      Delivered job caller fs fs' icon ∧ report = Report.of job icon.length ∧
      Icon.Shows icon job.sizes (entryImage image job.filter) := by
  obtain ⟨cs, r, hsteps, hr⟩ := exists_steps_of_convert h
  cases r with
  | error e => cases hr
  | ok n =>
    cases hr
    obtain ⟨icon, hreplaced, hicon, rfl⟩ := alone_of_steps hsteps
    obtain ⟨image, himage, hencode⟩ := exists_image_of_iconOf hicon
    exact ⟨image, icon, himage, delivered_of_replaced hreplaced, rfl,
      Icon.shows_of_entries (inRange_loadImage himage) hencode⟩

theorem convert_calm : ∃ fs', convert onePixelJob anyone .calm onePixelFiles = (.ok (Report.of onePixelJob 95), fs') := by
  have hreport : (convert onePixelJob anyone .calm onePixelFiles).1 = .ok (Report.of onePixelJob 95) := by cbv
  exact ⟨_, Prod.ext hreport rfl⟩

/-- One entry of the largest size, and then a small one. -/
def twoSizesJob : Job :=
  { onePixelJob with
    sizes := ⟨[⟨maxEdge, by decide, Nat.le_refl _⟩, ⟨2, by decide, by decide⟩], by decide, by decide⟩ }

theorem ready_twoSizesJob : Ready twoSizesJob anyone onePixelFiles [[98]] where
  input := by
    have hread : onePixelFiles.read anyone.cwd twoSizesJob.input = .ok onePixel := by cbv
    obtain ⟨image, himage⟩ := loadImage_onePixel
    obtain ⟨icon, hicon⟩ := Icon.exists_encode image twoSizesJob.filter twoSizesJob.sizes
    have hprepare : prepare twoSizesJob (.ok onePixel) =
        .ok (twoSizesJob.sizes.sizes.map (entry image twoSizesJob.filter)) := by
      rw [prepare_eq, show loadImage twoSizesJob.input (.ok onePixel) = .ok image from himage]
      rfl
    exact ⟨icon, by rw [hread, iconOf_eq hprepare, hicon]⟩
  writable m hm := by
    have hmode : onePixelFiles.fileMode? anyone.cwd twoSizesJob.output = some 0o644#12 := by cbv
    rw [hmode] at hm
    cases hm
    rfl
  entry := by cbv
  noDirectory m := by
    have hfile : onePixelFiles.get? [[98]] = some (.file 0o644#12 [1, 2]) := rfl
    rw [hfile]
    simp
  mayChange := rfl
  path := ⟨.numbered 0, by cbv⟩

/-- The icon of one pixel in two sizes. The largest one is stated as 0, and the second payload is
    right behind the first. -/
theorem a_calm_conversion_shows_its_sizes :
    ∃ fs' image icon, convert twoSizesJob anyone .calm onePixelFiles = (.ok (Report.of twoSizesJob icon.length), fs') ∧
      loadImage twoSizesJob.input (onePixelFiles.read [] [97]) = .ok image ∧
      Delivered twoSizesJob anyone onePixelFiles fs' icon ∧
      Icon.Shows icon twoSizesJob.sizes (entryImage image .nearest) ∧
      icon.number 6 1 = 0 ∧ icon.number 22 1 = 2 ∧ Icon.payloadPlace icon 0 = 38 ∧
      Icon.payloadPlace icon 1 = 38 + Icon.payloadLength icon 0 ∧
      icon.length = 38 + Icon.payloadLength icon 0 + Icon.payloadLength icon 1 := by
  have hfair : Weather.calm.Fair onePixelFiles [] := fair_of_few (fun _ => rfl) rfl (by decide) []
  obtain ⟨report, fs', hrun⟩ := convert_of_ready ready_twoSizesJob hfair
  obtain ⟨image, icon, himage, hdelivered, rfl, hshows⟩ := outputs_show_every_size hrun
  have hfirst := hshows.tiled.first (by decide)
  have hnext := hshows.tiled.next 0 (by decide)
  have hlast := hshows.tiled.last 1 rfl
  refine ⟨fs', image, icon, hrun, himage, hdelivered, hshows, hshows.describes.width 0 256 rfl,
    hshows.describes.width 1 2 rfl, hfirst, ?_, ?_⟩
  · rw [hnext, hfirst]
    rfl
  · rw [← hlast, hnext, hfirst]
    rfl

end Conversion

end IconMaker
