import IconMaker.Resample

/-
  IconMaker.Proofs.Raster — rasters are functions on their pixels.

  `sample_tabulate` reads back what `tabulate` was given, `tabulate_congr` says that it is
  given no more than that, and `tabulate_sample` that every raster is made in this way. The
  samples of a format are not above its largest one (`InRange`); a change of size or of format
  keeps them there. `Rgba8Of` says sample by sample what becomes of an image in the format of
  icons, and that is one raster only (`rgba8Of_iff`).
-/

namespace IconMaker

theorem Format.channels_pos (f : Format) : 0 < f.channels := by
  unfold Format.channels Format.colors
  split <;> omega

namespace Raster

/-- The pixel and the channel of a place in the samples. -/
theorem place_bounds {i w h n : Nat} (hn : 0 < n) (hi : i < w * h * n) :
    i / n % w < w ∧ i / n / w < h ∧ i % n < n := by
  have hpixel : i / n < w * h := Nat.div_lt_of_lt_mul (Nat.mul_comm n _ ▸ hi)
  have hw : 0 < w := by
    refine Nat.pos_of_ne_zero fun hw => ?_
    rw [hw, Nat.zero_mul] at hpixel
    exact Nat.not_lt_zero _ hpixel
  exact ⟨Nat.mod_lt _ hw, Nat.div_lt_of_lt_mul hpixel, Nat.mod_lt _ hn⟩

theorem place_lt {x y c w h n : Nat} (hx : x < w) (hy : y < h) (hc : c < n) : (y * w + x) * n + c < w * h * n := by
  have hpixel : y * w + x < w * h := by
    have := Nat.mul_le_mul_right w (Nat.succ_le_of_lt hy)
    rw [Nat.succ_mul, Nat.mul_comm h] at this
    omega
  have := Nat.mul_le_mul_right n (Nat.succ_le_of_lt hpixel)
  rw [Nat.succ_mul] at this
  omega

variable {width height : Nat} {f : Format} {a b : Nat → Nat → Nat → UInt16}

theorem sample_tabulate {x y c : Nat} (hx : x < width) (hy : y < height) (hc : c < f.channels) :
    (tabulate width height f a).sample x y c = a x y c := by
  have hw : 0 < width := Nat.lt_of_le_of_lt (Nat.zero_le x) hx
  have hdiv : ((y * width + x) * f.channels + c) / f.channels = y * width + x := by
    rw [Nat.mul_comm, Nat.mul_add_div f.channels_pos, Nat.div_eq_of_lt hc, Nat.add_zero]
  have hmod : ((y * width + x) * f.channels + c) % f.channels = c := by
    rw [Nat.mul_comm, Nat.mul_add_mod, Nat.mod_eq_of_lt hc]
  have hrow : (y * width + x) / width = y := by
    rw [Nat.mul_comm, Nat.mul_add_div hw, Nat.div_eq_of_lt hx, Nat.add_zero]
  have hcolumn : (y * width + x) % width = x := by
    rw [Nat.mul_comm, Nat.mul_add_mod, Nat.mod_eq_of_lt hx]
  unfold sample tabulate
  simp only [Array.getD_eq_getD_getElem?, Array.getElem?_ofFn, place_lt hx hy hc, dite_true, Option.getD_some, hdiv, hmod,
    hrow, hcolumn]

/-- A raster depends on the samples of its pixels only. -/
theorem tabulate_congr (h : ∀ x < width, ∀ y < height, ∀ c < f.channels, a x y c = b x y c) :
    tabulate width height f a = tabulate width height f b := by
  unfold tabulate
  simp only [mk.injEq, true_and]
  refine congrArg Array.ofFn (funext fun i => ?_)
  obtain ⟨hx, hy, hc⟩ := place_bounds f.channels_pos i.isLt
  exact h _ hx _ hy _ hc

theorem tabulate_sample (r : Raster) : tabulate r.width r.height r.format r.sample = r := by
  obtain ⟨w, h, f, samples, hsize⟩ := r
  unfold tabulate
  simp only [mk.injEq, true_and]
  refine Array.ext (by rw [Array.size_ofFn, hsize]) fun i hi hi' => ?_
  have hplace : (i / f.channels / w * w + i / f.channels % w) * f.channels + i % f.channels = i := by
    rw [Nat.div_add_mod', Nat.div_add_mod']
  rw [Array.getElem_ofFn, sample]
  dsimp only
  rw [hplace, Array.getD_eq_getD_getElem?, Array.getElem?_eq_getElem hi', Option.getD_some]

/-! ## The range of samples -/

/-- No sample is above the largest one of the format. -/
def InRange (r : Raster) : Prop := ∀ s ∈ r.samples, s.toNat ≤ r.format.maxSample

theorem sample_le {r : Raster} (h : r.InRange) (x y c : Nat) : (r.sample x y c).toNat ≤ r.format.maxSample := by
  unfold sample
  rw [Array.getD_eq_getD_getElem?]
  cases hs : r.samples[(y * r.width + x) * r.format.channels + c]? with
  | none => exact Nat.zero_le _
  | some s => exact h s (Array.mem_of_getElem? hs)

theorem inRange_tabulate (h : ∀ x < width, ∀ y < height, ∀ c < f.channels, (a x y c).toNat ≤ f.maxSample) :
    (tabulate width height f a).InRange := by
  intro s hs
  obtain ⟨i, rfl⟩ := Array.mem_ofFn.1 hs
  obtain ⟨hx, hy, hc⟩ := place_bounds f.channels_pos i.isLt
  exact h _ hx _ hy _ hc

theorem narrow_le {f : Format} {s : UInt16} (h : s.toNat ≤ f.maxSample) : (narrow f.wide s).toNat ≤ 255 := by
  unfold narrow
  unfold Format.maxSample at h
  split
  · rw [if_pos ‹_›] at h
    rw [UInt16.toNat_ofNat']
    omega
  · rw [if_neg ‹_›] at h
    exact h

theorem inRange_toRgba8 {r : Raster} (h : r.InRange) : r.toRgba8.InRange := by
  refine inRange_tabulate fun x _ y _ c _ => ?_
  unfold rgba8Sample
  split
  · exact narrow_le (sample_le h ..)
  · split
    · exact narrow_le (sample_le h ..)
    · exact Nat.le_refl 255

theorem toSample_le (maxSample : Nat) (v : Float32) : (Resample.toSample maxSample v).toNat ≤ maxSample := by
  unfold Resample.toSample
  rw [UInt16.toNat_ofNat']
  exact Nat.le_trans (Nat.mod_le ..) (Nat.min_le_left ..)

theorem inRange_resize {r : Raster} (h : r.InRange) (filter : Filter) (w h' : Nat) : (r.resize filter w h').InRange := by
  unfold resize
  split
  · exact h
  · exact inRange_tabulate fun x _ y _ c _ => toSample_le ..

theorem resize_sides (r : Raster) (filter : Filter) (w h : Nat) :
    (r.resize filter w h).width = w ∧ (r.resize filter w h).height = h := by
  unfold resize
  split
  · assumption
  · exact ⟨rfl, rfl⟩

/-- An image that has the size asked for is not touched, by no filter. -/
theorem resize_self {r : Raster} {w h : Nat} (hw : r.width = w) (hh : r.height = h) (filter : Filter) :
    r.resize filter w h = r := by
  unfold resize
  rw [if_pos ⟨hw, hh⟩]

/-! ## Colour and alpha of 8 bits -/

/-- A sample in 8 bits, rounded to the nearest. -/
def byteOf (wide : Bool) (v : Nat) : Nat := if wide then (v + 128) / 257 else v

/-- The second raster is the first one in colour and alpha of 8 bits: grey is copied to the three
    colours, and what has no alpha is opaque. -/
structure Rgba8Of (image r : Raster) : Prop where
  width : r.width = image.width
  height : r.height = image.height
  format : r.format = .rgba8
  color : ∀ x < image.width, ∀ y < image.height, ∀ c < 3,
    (r.sample x y c).toNat = byteOf image.format.wide (image.sample x y (if image.format.color then c else 0)).toNat
  alpha : ∀ x < image.width, ∀ y < image.height, (r.sample x y 3).toNat =
    if image.format.alpha then byteOf image.format.wide (image.sample x y image.format.colors).toNat else 255

variable {image r : Raster}

theorem toNat_narrow (wide : Bool) (s : UInt16) : (narrow wide s).toNat = byteOf wide s.toNat := by
  unfold narrow byteOf
  cases wide with
  | false => rfl
  | true =>
    have := s.toNat_lt
    rw [if_pos rfl, if_pos rfl, UInt16.toNat_ofNat']
    omega

theorem rgba8Of_toRgba8 (image : Raster) : Rgba8Of image image.toRgba8 where
  width := rfl
  height := rfl
  format := rfl
  color := by
    intro x hx y hy c hc
    have hchannel : c < Format.rgba8.channels := Nat.lt_succ_of_lt hc
    rw [toRgba8, sample_tabulate hx hy hchannel, rgba8Sample, if_pos hc, toNat_narrow]
  alpha := by
    intro x hx y hy
    rw [toRgba8, sample_tabulate hx hy (by decide), rgba8Sample, if_neg (by decide)]
    split
    · rw [toNat_narrow]
    · rfl

/-- Rasters with the same sides, format and samples are the same. -/
theorem eq_of_samples (hw : r.width = image.width) (hh : r.height = image.height) (hf : r.format = image.format)
    (hs : ∀ x < image.width, ∀ y < image.height, ∀ c < image.format.channels, r.sample x y c = image.sample x y c) :
    r = image := by
  rw [← tabulate_sample r, ← tabulate_sample image, hw, hh, hf]
  exact tabulate_congr hs

theorem rgba8Of_iff : Rgba8Of image r ↔ r = image.toRgba8 := by
  constructor
  · intro h
    have h' := rgba8Of_toRgba8 image
    refine eq_of_samples h.width h.height h.format fun x hx y hy c hc => UInt16.toNat_inj.1 ?_
    have hc : c < 4 := hc
    by_cases h3 : c < 3
    · rw [h.color x hx y hy c h3, h'.color x hx y hy c h3]
    · obtain rfl : c = 3 := by omega
      rw [h.alpha x hx y hy, h'.alpha x hx y hy]
  · rintro rfl
    exact rgba8Of_toRgba8 image

/-- A raster in this format stays as it is. -/
theorem toRgba8_eq_self (h : r.format = .rgba8) : r.toRgba8 = r := by
  refine (rgba8Of_iff.1 ⟨rfl, rfl, h, ?_, ?_⟩).symm
  · intro x _ y _ c _
    rw [h]
    rfl
  · intro x _ y _
    rw [h]
    rfl

end Raster

end IconMaker
