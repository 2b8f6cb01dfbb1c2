import IconMaker.Proofs.Conversion.Output

/-
  IconMaker.Proofs.Conversion.Again — an entry of an icon, converted once more.

  The entry of a size is made of the image without resampling where the image has that size
  already (`entryImage_of_sides`), and then shows it sample by sample. What an entry shows has the
  size of the entry and the format of icons, so a second conversion finds nothing to change
  (`entryImage_entryImage`), whatever its filter: `entries_are_fixed`.
-/

namespace IconMaker

variable {image : Raster} {s : Size}

/-! ## Pictures -/

theorem entryImage_of_sides (hw : image.width = s.edge) (hh : image.height = s.edge) (filter : Filter) :
    entryImage image filter s = image.toRgba8 := by
  rw [entryImage, Raster.resize_self hw hh]

/-- The picture of an entry is that of its entry of the same size. -/
theorem entryImage_entryImage (image : Raster) (filter filter' : Filter) (s : Size) :
    entryImage (entryImage image filter s) filter' s = entryImage image filter s := by
  obtain ⟨hw, hh⟩ := entryImage_sides image filter s
  rw [entryImage_of_sides hw hh]
  exact Raster.toRgba8_eq_self rfl

/-- Only the pictures of the sizes that are there count. -/
theorem Icon.Shows.congr {icon : Bytes} {sizes : SizeList} {picture picture' : Size → Raster}
    (h : Icon.Shows icon sizes picture) (he : ∀ s ∈ sizes.sizes, picture s = picture' s) :
    Icon.Shows icon sizes picture' := by
  have hat : ∀ i s, sizes.sizes[i]? = some s → picture s = picture' s := fun i s hs => he s (List.mem_of_getElem? hs)
  refine ⟨h.describes, h.tiled, h.fits, ?_, ?_, ?_, ?_⟩
  · intro s hs
    rw [← he s hs]
    exact h.sides s hs
  · intro i s hs
    rw [← hat i s hs]
    exact h.payload_shows i s hs
  · intro i s hs
    rw [← hat i s hs]
    exact h.payload_decodes i s hs
  · obtain ⟨es, hread, hes⟩ := h.read
    refine ⟨es, hread, hes.trans (List.map_congr_left ?_)⟩
    intro s hs
    rw [he s hs]

namespace Conversion

variable {job : Job} {caller : Caller} {w : Weather} {fs fs' : Files} {bs icon : Bytes}

/-! ## Conversions of what was read -/

theorem read_of_inputOf (h : inputOf job caller w fs = .ok bs) : fs.read caller.cwd job.input = .ok bs := by
  unfold inputOf at h
  split at h
  · cases h
  · exact h

section

variable [Png.LawfulWriter]

/-- The icon is delivered, or the output is at fault. -/
theorem convert_of_iconOf (hread : inputOf job caller w fs = .ok bs) (hicon : iconOf job (.ok bs) = some icon) :
    (∃ fs', convert job caller w fs = (.ok (Report.of job icon.length), fs') ∧ Delivered job caller fs fs' icon) ∨
    ∃ e, convert job caller w fs = (.error (.outputUnwritable job.output e), fs) := by
  obtain ⟨image, himage, -⟩ := exists_image_of_iconOf hicon
  obtain ⟨_, hbs, hdecode⟩ := loadImage_eq_ok_iff.1 himage
  cases hbs
  have hpass := passesInput_of_decodes ⟨bs, image, hread, hdecode⟩
  rcases convert_outcome job caller w fs with ⟨e, he⟩ | ⟨icon', fs', hok, hicon', hreplaced⟩
  · obtain ⟨c, rfl⟩ := hpass.blames e (congrArg Prod.fst he)
    exact Or.inr ⟨c, he⟩
  · rw [read_of_inputOf hread, hicon] at hicon'
    cases hicon'
    exact Or.inl ⟨fs', hok, delivered_of_replaced hreplaced⟩

/-- Whoever converts a file of these bytes to one entry of the size gets an icon that shows the
    picture, unless the output is at fault. -/
def Reconverts (bs : Bytes) (s : Size) (picture : Raster) : Prop :=
  ∀ job : Job, job.sizes.sizes = [s] → ∃ icon, Icon.Shows icon job.sizes (fun _ => picture) ∧
    ∀ caller w fs, inputOf job caller w fs = .ok bs →
      (∃ fs', convert job caller w fs = (.ok (Report.of job icon.length), fs') ∧ Delivered job caller fs fs' icon) ∨
      ∃ e, convert job caller w fs = (.error (.outputUnwritable job.output e), fs)

theorem reconverts_of_decode {picture : Raster} (hdecode : Png.decode bs = some picture)
    (hsame : ∀ filter, entryImage picture filter s = picture) : Reconverts bs s picture := by
  intro job hsizes
  obtain ⟨icon, hencode⟩ := Icon.exists_encode picture job.filter job.sizes
  have hprepare : prepare job (.ok bs) = .ok (job.sizes.sizes.map (entry picture job.filter)) :=
    prepare_eq_ok_iff.2 ⟨bs, picture, rfl, hdecode, rfl⟩
  have hshows := Icon.shows_of_entries (Png.inRange_decode hdecode) hencode
  refine ⟨icon, hshows.congr ?_, ?_⟩
  · intro s' hs'
    rw [hsizes, List.mem_singleton] at hs'
    rw [hs', hsame]
  · intro caller w fs hread
    exact convert_of_iconOf hread ((iconOf_eq hprepare).trans hencode)

/-- The entries of an icon that a conversion writes are fixed: converted again in their size, with
    any filter, they come out as they are. Where the image has the size of an entry, that entry is
    the image itself, sample by sample. -/
theorem entries_are_fixed :
    (∀ job caller w fs report fs', convert job caller w fs = (.ok report, fs') →
      ∃ image icon, loadImage job.input (fs.read caller.cwd job.input) = .ok image ∧ Delivered job caller fs fs' icon ∧
        ∀ i s, job.sizes.sizes[i]? = some s →
          Png.Shows (Icon.payload icon i) (entryImage image job.filter s) ∧
          Png.decode (Icon.payload icon i) = some (entryImage image job.filter s) ∧
          Reconverts (Icon.payload icon i) s (entryImage image job.filter s)) ∧
    ∀ (image : Raster) (filter : Filter) (s : Size), image.width = s.edge → image.height = s.edge →
      Raster.Rgba8Of image (entryImage image filter s) := by
  constructor
  · intro job caller w fs report fs' h
    rcases convert_outcome job caller w fs with ⟨e, he⟩ | ⟨icon, fs'', hok, hicon, hreplaced⟩
    · rw [he] at h
      cases h
    · rw [hok] at h
      cases h
      obtain ⟨image, himage, hshows⟩ := exists_shows_of_iconOf hicon
      refine ⟨image, icon, himage, delivered_of_replaced hreplaced, ?_⟩
      intro i s hs
      have hdecode := hshows.payload_decodes i s hs
      have hsame : ∀ filter, entryImage (entryImage image job.filter s) filter s = entryImage image job.filter s :=
        fun filter => entryImage_entryImage image job.filter filter s
      exact ⟨hshows.payload_shows i s hs, hdecode, reconverts_of_decode hdecode hsame⟩
  · intro image filter s hw hh
    exact Raster.rgba8Of_iff.2 (entryImage_of_sides hw hh filter)

end

/-- Where an entry was saved as a file. -/
def savedFiles (bs : Bytes) : Files := ⟨[([[97]], .file 0o600#12 bs)]⟩

theorem inputOf_savedFiles (bs : Bytes) : inputOf secondJob anyone .calm (savedFiles bs) = .ok bs := by cbv

theorem sides_onePixel {image : Raster} (h : loadImage [97] (onePixelFiles.read [] [97]) = .ok image) :
    image.width = 1 ∧ image.height = 1 := by
  have hread : onePixelFiles.read [] [97] = .ok onePixel := by cbv
  have hsides : (Png.decode onePixel).map (fun r => (r.width, r.height)) = some (1, 1) := by cbv
  obtain ⟨bs, hbs, hdecode⟩ := loadImage_eq_ok_iff.1 h
  rw [hread] at hbs
  cases hbs
  rw [hdecode, Option.map_some, Option.some.injEq, Prod.mk.injEq] at hsides
  exact hsides

/-- The image of one pixel becomes an entry of one pixel that shows it, and this is converted again
    with another filter. -/
theorem a_pixel_is_fixed :
    ∃ fs', convert onePixelJob anyone .calm onePixelFiles = (.ok (Report.of onePixelJob 95), fs') ∧
      ∃ image icon picture, loadImage onePixelJob.input (onePixelFiles.read [] [97]) = .ok image ∧
        Delivered onePixelJob anyone onePixelFiles fs' icon ∧ Png.decode (Icon.payload icon 0) = some picture ∧
        Raster.Rgba8Of image picture ∧
        ∃ icon', Icon.Shows icon' secondJob.sizes (fun _ => picture) ∧
          ((∃ after, convert secondJob anyone .calm (savedFiles (Icon.payload icon 0))
              = (.ok (Report.of secondJob icon'.length), after) ∧
            Delivered secondJob anyone (savedFiles (Icon.payload icon 0)) after icon') ∨
          ∃ e, convert secondJob anyone .calm (savedFiles (Icon.payload icon 0))
            = (.error (.outputUnwritable [99] e), savedFiles (Icon.payload icon 0))) := by
  obtain ⟨fs', hrun⟩ := convert_calm
  obtain ⟨hentries, hself⟩ := entries_are_fixed
  obtain ⟨image, icon, himage, hdelivered, hfixed⟩ := hentries _ _ _ _ _ _ hrun
  obtain ⟨-, hdecode, hagain⟩ := hfixed 0 ⟨1, by decide, by decide⟩ rfl
  obtain ⟨icon', hshows, hconvert⟩ := hagain secondJob rfl
  obtain ⟨hw, hh⟩ := sides_onePixel himage
  exact ⟨fs', hrun, image, icon, _, himage, hdelivered, hdecode, hself image _ _ hw hh, icon', hshows,
    hconvert anyone .calm _ (inputOf_savedFiles (Icon.payload icon 0))⟩

end Conversion

end IconMaker
