import IconMaker.Proofs.Conversion.Causes
import IconMaker.Proofs.Conversion.Inputs

/-
  IconMaker.Proofs.Conversion.Colors — colour and alpha that an image has not, its entries have not.

  An image changes its size in its own format, and only then the samples become those of icons:
  grey is copied to the three colours and a missing alpha is opaque. So whatever the filters make
  of the samples, an entry of an image without alpha is opaque and one of a grey image is grey
  (`the_colour_class_survives`). Which images these are the file says (`Png.Loaded`): without alpha
  are those whose colour type has none and that no chunk makes transparent in places.
-/

namespace IconMaker

namespace Raster

/-- Every pixel has the largest alpha. -/
def Solid (r : Raster) : Prop := ∀ x < r.width, ∀ y < r.height, r.sample x y 3 = 255

/-- Every pixel has as much red as green and blue. -/
def Grey (r : Raster) : Prop :=
  ∀ x < r.width, ∀ y < r.height, r.sample x y 0 = r.sample x y 1 ∧ r.sample x y 1 = r.sample x y 2

/-- A picture in the format of icons has no colour and no transparency that an image of this format
    cannot have. -/
structure KeepsClass (r : Raster) (f : Format) : Prop where
  format : r.format = .rgba8
  alpha : f.alpha = false → r.Solid
  color : f.color = false → r.Grey

/-- The samples do not matter for it. -/
theorem keepsClass_toRgba8 (r : Raster) : r.toRgba8.KeepsClass r.format where
  format := rfl
  alpha := by
    intro halpha x hx y hy
    have hx : x < r.width := hx
    have hy : y < r.height := hy
    rw [toRgba8, sample_tabulate hx hy (by decide), rgba8Sample, if_neg (by decide), halpha]
    rfl
  color := by
    intro hcolor x hx y hy
    have hx : x < r.width := hx
    have hy : y < r.height := hy
    have hchannel : ∀ c < 3, r.toRgba8.sample x y c = narrow r.format.wide (r.sample x y 0) := by
      intro c hc
      have hc' : c < Format.rgba8.channels := Nat.lt_succ_of_lt hc
      rw [toRgba8, sample_tabulate hx hy hc', rgba8Sample, if_pos hc, hcolor]
      rfl
    rw [hchannel 0 (by decide), hchannel 1 (by decide), hchannel 2 (by decide)]
    exact ⟨rfl, rfl⟩

theorem resize_format (r : Raster) (filter : Filter) (w h : Nat) : (r.resize filter w h).format = r.format := by
  unfold resize
  split <;> rfl

end Raster

theorem keepsClass_entryImage (image : Raster) (filter : Filter) (s : Size) :
    (entryImage image filter s).KeepsClass image.format := by
  rw [← image.resize_format filter s.edge s.edge]
  exact Raster.keepsClass_toRgba8 _

/-- The entries of an image that was loaded are opaque if it has no alpha, and grey if it has no
    colour, in every size and with every filter. So would be any other raster in its format. -/
theorem the_colour_class_survives [Png.LawfulWriter] {path : Path} {bs : Bytes} {image : Raster}
    (h : loadImage path (.ok bs) = .ok image) :
    (∃ header chunks rest, Png.Loaded bs header chunks rest image) ∧
      (∀ filter sizes, ∃ frames, renderFrames image filter sizes = .ok frames ∧
        List.Forall₂ (fun s f => ∃ picture, Png.decode f.payload = some picture ∧ picture.width = s.edge ∧
          picture.height = s.edge ∧ picture.KeepsClass image.format) sizes.sizes frames) ∧
      ∀ r : Raster, r.format = image.format → r.toRgba8.KeepsClass image.format := by
  obtain ⟨_, hbs, hdecode⟩ := Conversion.loadImage_eq_ok_iff.1 h
  cases hbs
  refine ⟨Png.exists_loaded hdecode, fun filter sizes => ?_, fun r hr => hr ▸ r.keepsClass_toRgba8⟩
  obtain ⟨frames, hframes, hentries⟩ := exists_entries (Png.inRange_decode hdecode) filter sizes
  refine ⟨frames, hframes, hentries.imp fun s f hentry => ?_⟩
  obtain ⟨hwidth, hheight⟩ := entryImage_sides image filter s
  exact ⟨_, hentry.payload, hwidth, hheight, keepsClass_entryImage image filter s⟩

theorem format_onePixel {image : Raster} (h : loadImage [97] (.ok Conversion.onePixel) = .ok image) :
    image.format = ⟨false, false, false⟩ := by
  have hformat : (Png.decode Conversion.onePixel).map Raster.format = some ⟨false, false, false⟩ := by cbv
  obtain ⟨bs, hbs, hdecode⟩ := Conversion.loadImage_eq_ok_iff.1 h
  rw [Except.ok.inj hbs, hdecode, Option.map_some, Option.some.injEq] at hformat
  exact hformat

/-- A grey pixel without alpha comes out grey and opaque. -/
theorem a_grey_pixel_stays_grey : ∃ image, loadImage [97] (.ok Conversion.onePixel) = .ok image ∧
    ∀ filter sizes, ∃ frames, renderFrames image filter sizes = .ok frames ∧
      List.Forall₂ (fun s f => ∃ picture, Png.decode f.payload = some picture ∧ picture.width = s.edge ∧
        picture.height = s.edge ∧ picture.Solid ∧ picture.Grey) sizes.sizes frames := by
  obtain ⟨image, himage⟩ := Conversion.loadImage_onePixel
  obtain ⟨-, hframes, -⟩ := the_colour_class_survives himage
  refine ⟨image, himage, fun filter sizes => ?_⟩
  obtain ⟨frames, hrender, hentries⟩ := hframes filter sizes
  refine ⟨frames, hrender, hentries.imp ?_⟩
  rintro s f ⟨picture, hdecode, hwidth, hheight, hkeeps⟩
  rw [format_onePixel himage] at hkeeps
  exact ⟨picture, hdecode, hwidth, hheight, hkeeps.alpha rfl, hkeeps.color rfl⟩

end IconMaker
