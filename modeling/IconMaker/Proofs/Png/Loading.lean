import IconMaker.Proofs.Png.Packing
import IconMaker.Proofs.Raster

/-
  IconMaker.Proofs.Png.Loading — decoding gives the raster that was meant.

  `loadedSample_eq` is the meaning of the samples: depth, palette and transparency. With it
  `decode_file` puts the parts together: the container, the expansion of the image data, the
  passes and the samples.
-/

namespace IconMaker.Png

variable {p : Picture} {e : Encoding}

theorem preamble_format (p : Picture) (e : Encoding) : (e.preamble p).format = p.format := by
  unfold Preamble.format Header.format Encoding.preamble Encoding.header Picture.format
  dsimp only
  rw [Option.isSome_map]
  cases p.color <;> cases p.clear.isSome <;> rfl

theorem colorsOf_paletteData (p : Picture) : colorsOf (Encoding.paletteData p) = p.palette := by
  unfold Encoding.paletteData
  induction p.palette with
  | nil => rfl
  | cons c cs ih =>
    obtain ⟨r, g, b⟩ := c
    rw [List.flatMap_cons]
    exact congrArg _ ih

/-! ## The meaning of the samples -/

theorem scaleSample_eq (hp : p.Legal) (v : Nat) : scaleSample p.depth v = p.stretched v := by
  unfold scaleSample Picture.stretched
  rcases ColorType.depth_le hp.depth with h | h | h | h | h <;> rw [h] <;> simp <;> omega

theorem format_channels (p : Picture) :
    p.format.channels = p.format.colors + if p.clear.isSome || p.color.hasAlpha then 1 else 0 := rfl

theorem loadedSample_indexed (hp : p.Legal) (hi : p.color = .indexed) {stored : Nat → Nat} {x y c : Nat}
    (hs : stored 0 = p.sample x y 0) (hc : c < p.format.channels) :
    loadedSample (e.preamble p) p.palette.toArray stored c = p.loadedSample x y c := by
  have hcolors : p.format.colors = 3 := by
    simp [Format.colors, Picture.format, hi, ColorType.hasColor]
  have hgetD : p.palette.toArray.getD (p.sample x y 0) black = p.palette.getD (p.sample x y 0) (0, 0, 0) := by
    simp [black, List.getD_eq_getElem?_getD]
  unfold loadedSample Picture.loadedSample
  simp only [Encoding.preamble, Encoding.header, hi, hs, hgetD, hcolors, if_true]
  by_cases h3 : c < 3
  · rw [if_pos h3]
    rcases (by omega : c = 0 ∨ c = 1 ∨ c = 2) with rfl | rfl | rfl <;> rfl
  · rw [if_neg h3, if_neg (by omega), if_neg (by omega), if_neg (by omega), if_neg (by decide)]
    rw [format_channels, hcolors, hi] at hc
    cases hclear : p.clear with
    | none =>
      rw [hclear] at hc
      exact absurd hc h3
    | some t =>
      cases t with
      | color vs =>
        rcases (hp.clear _ hclear).1 with h | h <;> rw [hi] at h <;> cases h
      | entries as =>
        have hle : as.length ≤ p.palette.toArray.size := (hp.clear _ hclear).2.2
        simp only [Option.map_some, Clear.read, paletteAlpha, if_pos hle, Picture.clearAlpha, hclear]

/-- The alpha of a pixel that has none of its own, as it is loaded. -/
def keyAlpha (depth channels : Nat) (t : Option Transparency) (stored : Nat → Nat) : Nat :=
  match t with
  | some (.key (some k)) =>
    if (List.range channels).map stored = k then 0 else if depth = 16 then 65535 else 255
  | _ => if depth = 16 then 65535 else 255

theorem channels_direct (hi : p.color ≠ .indexed) :
    p.channels = p.format.colors + if p.color.hasAlpha then 1 else 0 := by
  unfold Picture.channels Format.colors Picture.format
  cases hcolor : p.color <;> first | rfl | exact absurd hcolor hi

theorem loadedSample_preamble (hi : p.color ≠ .indexed) (colors : Array (UInt8 × UInt8 × UInt8)) (stored : Nat → Nat)
    (c : Nat) : loadedSample (e.preamble p) colors stored c
      = if c < p.channels then scaleSample p.depth (stored c)
        else keyAlpha p.depth p.channels (p.clear.map Clear.read) stored := by
  unfold loadedSample Encoding.preamble Encoding.header Picture.channels
  cases hcolor : p.color <;> first | rfl | exact absurd hcolor hi

theorem keyAlpha_eq (hp : p.Legal) (hi : p.color ≠ .indexed) {stored : Nat → Nat} {x y : Nat}
    (hs : ∀ c < p.channels, stored c = p.sample x y c) :
    keyAlpha p.depth p.channels (p.clear.map Clear.read) stored = p.clearAlpha x y := by
  have hmax : p.format.maxSample = if p.depth = 16 then 65535 else 255 := by
    simp [Format.maxSample, Picture.format]
  unfold Picture.clearAlpha
  rw [hmax]
  cases hclear : p.clear with
  | none => rfl
  | some t =>
    cases t with
    | entries as => exact absurd (hp.clear _ hclear).1 hi
    | color vs =>
      have hpixel : (List.range p.channels).map stored = (List.range p.channels).map (p.sample x y) :=
        List.map_congr_left fun c hc => hs c (List.mem_range.1 hc)
      simp only [Option.map_some, Clear.read, keyAlpha, hpixel]

theorem loadedSample_direct (hp : p.Legal) (hi : p.color ≠ .indexed) {colors : Array (UInt8 × UInt8 × UInt8)}
    {stored : Nat → Nat} {x y c : Nat} (hs : ∀ c < p.channels, stored c = p.sample x y c) (hc : c < p.format.channels) :
    loadedSample (e.preamble p) colors stored c = p.loadedSample x y c := by
  have hchannels := channels_direct hi
  rw [loadedSample_preamble hi, Picture.loadedSample, if_neg hi]
  by_cases hlt : c < p.channels
  · rw [if_pos hlt, hs c hlt, scaleSample_eq hp]
    by_cases hcolor : c < p.format.colors
    · rw [if_pos hcolor]
    · cases ha : p.color.hasAlpha with
      | true => rw [if_neg hcolor, if_pos rfl]
      | false =>
        rw [ha, if_neg Bool.false_ne_true, Nat.add_zero] at hchannels
        exact absurd (hchannels ▸ hlt) hcolor
  · have hcolor : ¬c < p.format.colors := fun h => hlt (by rw [hchannels]; omega)
    have ha : p.color.hasAlpha = false := by
      cases ha : p.color.hasAlpha with
      | false => rfl
      | true =>
        rw [format_channels, ha, Bool.or_true] at hc
        rw [ha] at hchannels
        exact absurd (hchannels ▸ hc) hlt
    rw [if_neg hlt, if_neg hcolor, ha, if_neg Bool.false_ne_true, keyAlpha_eq hp hi hs]

/-! ## The whole file -/

theorem raster_eq (hp : p.Legal) {rs : List PassRows} (hmap : rs.map Prod.fst = (e.header p).passes)
    (hright : ∀ r ∈ rs, Right p r) : raster (e.preamble p) rs = p.loaded := by
  unfold raster Picture.loaded
  rw [preamble_format]
  refine Raster.tabulate_congr fun x hx y hy c hc => congrArg UInt16.ofNat ?_
  have hs : ∀ c < p.channels, storedSample (e.header p) rs x y c = p.sample x y c :=
    fun c hc => storedSample_of_right e hmap hright hx hy hc
  by_cases hi : p.color = .indexed
  · have hpalette : (e.preamble p).palette.getD [] = Encoding.paletteData p := by
      simp [Encoding.preamble, hi]
    rw [hpalette, colorsOf_paletteData]
    exact loadedSample_indexed hp hi (hs 0 (by simp [Picture.channels, hi, ColorType.channels])) hc
  · exact loadedSample_direct hp hi hs hc

/-- What is left to do once the container has been read. -/
theorem decode_container (hp : p.Legal) (hne : e.pieces ≠ []) (hpieces : ∀ b ∈ e.pieces, b.length < 2 ^ 31)
    (hsize : p.loadedBytes ≤ maxLoadedBytes) :
    decode (e.file p) = (Zlib.expand (e.header p).scanlineBytes e.pieces).bind fun lines =>
      (readPasses (e.header p) (e.header p).passes lines.toList).map (raster (e.preamble p)) := by
  have hpalette : ¬((e.preamble p).header.color = .indexed ∧ (e.preamble p).palette = none) := by
    rintro ⟨hi, hn⟩
    have hi : p.color = .indexed := hi
    simp [Encoding.preamble, hi] at hn
  have hbytes : (e.preamble p).loadedBytes = p.loadedBytes := by
    unfold Preamble.loadedBytes
    rw [preamble_format]
    rfl
  unfold decode
  rw [readHeader_file hp]
  dsimp only [Option.bind_eq_bind, Option.bind_some]
  rw [readPreamble_file hp hne]
  dsimp only [Option.bind_some]
  rw [if_neg hpalette, hbytes, if_neg (Nat.not_lt.2 hsize),
    show readImageData e.imageChunks = some e.pieces from readImageData_chunks hpieces]
  dsimp only [Option.bind_some]
  refine congrArg (Option.bind _) (funext fun lines => ?_)
  exact Option.map_eq_bind.symm

theorem decode_file (hp : p.Legal) (he : e.Legal .reader p) (hsize : p.loadedBytes ≤ maxLoadedBytes) :
    decode (e.file p) = some p.loaded := by
  have hne : e.pieces ≠ [] := by
    intro hn
    obtain ⟨_, _, _, _, _, hcons⟩ := he.stream
    rw [hn] at hcons
    cases hcons
  have hpasses := passes_match (e.header p)
  have hlimit : (e.data p).length ≤ (e.header p).scanlineBytes := length_data e hpasses he.passes
  obtain ⟨rs, hrs, hmap, hright⟩ := readPasses_lines hp e hpasses he.passes
  have hrs : readPasses (e.header p) (e.header p).passes (e.data p).toArray.toList = some rs := hrs
  rw [decode_container hp hne he.pieces hsize, Zlib.expand_of_expands he.stream hlimit, Option.bind_some, hrs,
    Option.map_some, raster_eq hp hmap hright]

end IconMaker.Png
