import IconMaker.Proofs.Deflate.Safety
import IconMaker.Proofs.Png.Lines
import IconMaker.Proofs.Png.Preamble

/-
  IconMaker.Proofs.Png.Safety — any bytes whatsoever are an image or refused.

  `Decodes` puts the rules of all parts together (`ReadsChunks`, `ReadsImageData`,
  `Zlib.Unpacks`, `ReadsPasses`) and adds those of the pixels: every sample stands in the lines
  and fits the format that it is loaded in. It is what becomes of every file (`decodes_decode`):
  right or wrong, a file is read by these rules, and there is none for a byte that is not there.

  `Loaded` says what image comes of a file that is not refused: the sides and the depth are those
  of its header, the channels those of its colour type and its transparency, and the samples are
  as many as they have to be, and not too many.
-/

namespace IconMaker.Png

/-! ## The header -/

theorem code_of_ofCode? {n : Nat} {t : ColorType} (h : ColorType.ofCode? n = some t) : t.code = n := by
  unfold ColorType.ofCode? at h
  split at h <;> cases h <;> rfl

/-- A header that is read is the one that is written with these bytes. -/
theorem data_of_ofData? {bs : Bytes} {h : Header} (hd : Header.ofData? bs = some h) : bs = h.data := by
  unfold Header.ofData? at hd
  simp only [Option.bind_eq_bind, Option.bind_eq_some_iff] at hd
  obtain ⟨⟨w, r⟩, hw, ⟨ht, r'⟩, hht, hd⟩ := hd
  obtain ⟨rfl, hwl⟩ := Bytes.split?_eq hw
  obtain ⟨rfl, htl⟩ := Bytes.split?_eq hht
  dsimp only at hd
  split at hd
  · rename_i depth color compression filter interlace
    rw [Option.bind_eq_some_iff] at hd
    obtain ⟨t, hcolor, hd⟩ := hd
    split at hd
    · rename_i hlegal
      cases hd
      simp only [Bool.and_eq_true, beq_iff_eq, decide_eq_true_eq] at hlegal
      obtain ⟨⟨⟨-, rfl⟩, rfl⟩, hinterlace⟩ := hlegal
      have hbyte : (if interlace == 1 then 1 else 0 : UInt8) = interlace := by
        rcases (by omega : interlace.toNat = 0 ∨ interlace.toNat = 1) with h0 | h1
        · obtain rfl : interlace = 0 := UInt8.toNat_inj.1 h0
          rfl
        · obtain rfl : interlace = 1 := UInt8.toNat_inj.1 h1
          rfl
      have hwidth := Bytes.be_ofBE w
      have hheight := Bytes.be_ofBE ht
      rw [hwl] at hwidth
      rw [htl] at hheight
      simp only [Header.data, hbyte, code_of_ofCode? hcolor, UInt8.ofNat_toNat, hwidth, hheight, List.append_assoc]
    · cases hd
  · cases hd

theorem write_of_sound {c : RawChunk} (h : c.Sound) : c.bytes = Chunk.write c.kind c.data := by
  rw [RawChunk.bytes, h, Chunk.write, List.append_assoc, List.append_assoc]

/-! ## The image data -/

/-- The chunks of image data at the start of what is given. -/
inductive ReadsImageData : Bytes → Option (List Bytes) → Prop
  /-- The file ends within the chunk. -/
  | cut {bs : Bytes} : Chunk.kind? bs = none ∨ Chunk.next? bs = none → ReadsImageData bs none
  | ended {bs k : Bytes} : Chunk.kind? bs = some k → k ≠ Chunk.imageData → ReadsImageData bs (some [])
  | unsound {c : RawChunk} {rest : Bytes} : c.kind = Chunk.imageData → ¬c.Sound → ReadsImageData (c.bytes ++ rest) none
  | chunk {c : RawChunk} {rest : Bytes} {r : Option (List Bytes)} : c.kind = Chunk.imageData → c.Sound →
      ReadsImageData rest r → ReadsImageData (c.bytes ++ rest) (r.map (c.data :: ·))

theorem readsImageData_readImageData (bs : Bytes) : ReadsImageData bs (readImageData bs) := by
  fun_induction readImageData bs with
  | case1 bs hkind => exact .cut (Or.inl hkind)
  | case2 bs hnext => exact .cut (Or.inr hnext)
  | case3 bs x rest hnext hx hkind ih =>
    obtain ⟨c, rfl, rfl⟩ := exists_raw hnext
    rw [kind?_raw, Option.some.injEq] at hkind
    exact .chunk hkind (c.sound_read.1 hx.1) ih
  | case4 bs x rest hnext hx hkind =>
    obtain ⟨c, rfl, rfl⟩ := exists_raw hnext
    rw [kind?_raw, Option.some.injEq] at hkind
    exact .unsound hkind fun hs => hx ⟨c.sound_read.2 hs, length_lt_raw c rest⟩
  | case5 bs k hkind hk => exact .ended hkind hk

/-! ## From the image data to the image -/

/-- The colour in a place of a palette, and black in places behind its end. -/
def PaletteColor (colors : Array (UInt8 × UInt8 × UInt8)) (i : Nat) (color : UInt8 × UInt8 × UInt8) : Prop :=
  colors[i]? = some color ∨ colors.size ≤ i ∧ color = black

/-- The image has the samples that stand in the lines, each in the range of the loaded format, so
    that none is cut off. -/
structure DrawnFrom (p : Preamble) (passes : List PassRows) (image : Raster) : Prop where
  stored : ∀ x < p.header.width, ∀ y < p.header.height, ∀ c < p.header.color.samples,
    Stored p.header passes x y c (storedSample p.header passes x y c)
  samples : ∀ x < p.header.width, ∀ y < p.header.height, ∀ c < p.format.channels,
    (image.sample x y c).toNat =
      loadedSample p (colorsOf (p.palette.getD [])).toArray (storedSample p.header passes x y) c
  range : ∀ x < p.header.width, ∀ y < p.header.height, ∀ c < p.format.channels,
    (image.sample x y c).toNat ≤ p.format.maxSample
  palette : p.header.color = .indexed → ∀ x < p.header.width, ∀ y < p.header.height, ∃ color,
    PaletteColor (colorsOf (p.palette.getD [])).toArray (storedSample p.header passes x y 0) color ∧
      image.sample x y 0 = color.1.toUInt16 ∧ image.sample x y 1 = color.2.1.toUInt16 ∧
      image.sample x y 2 = color.2.2.toUInt16

theorem paletteColor_getD (colors : Array (UInt8 × UInt8 × UInt8)) (i : Nat) :
    PaletteColor colors i (colors.getD i black) := by
  by_cases hi : i < colors.size
  · exact Or.inl (getElem?_eq_some_getD hi black)
  · refine Or.inr ⟨Nat.le_of_not_lt hi, ?_⟩
    rw [Array.getD_eq_getD_getElem?, Array.getElem?_eq_none (Nat.le_of_not_lt hi), Option.getD_none]

theorem drawnFrom_raster {p : Preamble} {passes : List PassRows} (hlegal : p.header.isLegal = true)
    (hmap : passes.map Prod.fst = p.header.passes)
    (hfull : ∀ x ∈ passes, x.1.width p.header.width ≠ 0 → Full p.header x) : DrawnFrom p passes (raster p passes) := by
  have hsample : ∀ x < p.header.width, ∀ y < p.header.height, ∀ c < p.format.channels,
      ((raster p passes).sample x y c).toNat =
        loadedSample p (colorsOf (p.palette.getD [])).toArray (storedSample p.header passes x y) c := by
    intro x hx y hy c hc
    have hle := loadedSample_le hlegal (fun c => storedSample_lt p.header passes x y c)
      (colorsOf (p.palette.getD [])).toArray c
    have hmax : p.format.maxSample < 65536 := by
      rw [maxSample_format]
      split <;> decide
    rw [raster, Raster.sample_tabulate hx hy hc, UInt16.toNat_ofNat', Nat.mod_eq_of_lt (Nat.lt_of_le_of_lt hle hmax)]
  refine ⟨fun x hx y hy c hc => stored_storedSample hlegal hmap hfull hx hy hc, hsample, fun x _ y _ c _ => ?_, ?_⟩
  · exact Raster.sample_le (inRange_raster hlegal passes) x y c
  · intro hi x hx y hy
    have hcolors : p.format.colors = 3 := by simp [Preamble.format, Header.format, Format.colors, hi]
    have hchannels : 3 ≤ p.format.channels := hcolors ▸ Nat.le_add_right ..
    refine ⟨_, paletteColor_getD _ _, ?_, ?_, ?_⟩
    all_goals
      refine UInt16.toNat_inj.1 ?_
      rw [hsample x hx y hy _ (by omega), loadedSample]
      simp [hi]

/-- Reading what follows the preamble `p`. -/
inductive DecodesData (p : Preamble) (bs : Bytes) : Option Raster → Prop
  | brokenData : ReadsImageData bs none → DecodesData p bs none
  | wrongStream {pieces : List Bytes} : ReadsImageData bs (some pieces) →
      Zlib.Unpacks p.header.scanlineBytes .start pieces none → DecodesData p bs none
  | wrongLines {pieces : List Bytes} {lines : Array UInt8} : ReadsImageData bs (some pieces) →
      Zlib.Unpacks p.header.scanlineBytes .start pieces (some lines) →
      ReadsPasses p.header p.header.passes lines.toList none → DecodesData p bs none
  | image {pieces : List Bytes} {lines : Array UInt8} {passes : List PassRows} {image : Raster} :
      ReadsImageData bs (some pieces) → Zlib.Unpacks p.header.scanlineBytes .start pieces (some lines) →
      lines.size < p.header.scanlineBytes + Deflate.maxCopy →
      ReadsPasses p.header p.header.passes lines.toList (some passes) → DrawnFrom p passes image →
      DecodesData p bs (some image)

/-! ## The whole file -/

/-- Numbers below this one fit the counters of bytes. -/
def counterEnd : Nat := 2 ^ 64

/-- What becomes of a file. -/
inductive Decodes (bs : Bytes) : Option Raster → Prop
  | noHeader : readHeader bs = none → Decodes bs none
  | wrongChunk {h : Header} {r : Bytes} : readHeader bs = some (h.opening, r) → ReadsChunks h.opening r none →
      Decodes bs none
  | noPalette {h : Header} {r rest : Bytes} {p : Preamble} : readHeader bs = some (h.opening, r) →
      ReadsChunks h.opening r (some (p, rest)) → p.header.color = .indexed → p.palette = none → Decodes bs none
  | tooLarge {h : Header} {r rest : Bytes} {p : Preamble} : readHeader bs = some (h.opening, r) →
      ReadsChunks h.opening r (some (p, rest)) → maxLoadedBytes < p.loadedBytes → Decodes bs none
  | read {h : Header} {r rest : Bytes} {p : Preamble} {image : Option Raster} : readHeader bs = some (h.opening, r) →
      ReadsChunks h.opening r (some (p, rest)) → (p.header.color = .indexed → p.palette ≠ none) →
      p.loadedBytes ≤ maxLoadedBytes → p.header.scanlineBytes + Deflate.maxCopy < counterEnd → DecodesData p rest image →
      Decodes bs image

theorem rowBytes_le {h : Header} (hlegal : h.isLegal = true) (w : Nat) : h.rowBytes w ≤ 8 * w := by
  have hdepth : h.depth ≤ 16 := by
    rcases depth_cases hlegal with h | h | h | h | h <;> omega
  have hsamples : h.color.samples ≤ 4 := by cases h.color <;> decide
  have hbits : h.bitsPerPixel ≤ 64 := Nat.mul_le_mul hdepth hsamples
  have hline := Nat.mul_le_mul_left w hbits
  unfold Header.rowBytes
  omega

/-- A pass is not larger than the image. -/
theorem pass_le {interlaced : Bool} {n : Nat} {p : Pass} (hp : IsPass interlaced n p) (w h : Nat) :
    p.width w ≤ w ∧ p.height h ≤ h := by
  unfold Pass.width Pass.height
  constructor
  · rcases hp.dx with hd | hd | hd | hd <;> rw [hd] <;> omega
  · rcases hp.dy with hd | hd | hd | hd <;> rw [hd] <;> omega

theorem scanlineBytes_le {h : Header} (hlegal : h.isLegal = true) : h.scanlineBytes ≤ 7 * (h.height * (1 + 8 * h.width)) := by
  have hsum : ∀ {ns : List Nat} {ps : List Pass}, List.Forall₂ (IsPass h.interlaced) ns ps →
      ps.foldr (fun p n => p.height h.height * (1 + h.rowBytes (p.width h.width)) + n) 0 ≤
        ps.length * (h.height * (1 + 8 * h.width)) := by
    intro ns ps hps
    induction hps with
    | nil => exact Nat.zero_le _
    | @cons n p ns ps hp _ ih =>
      obtain ⟨hwidth, hheight⟩ := pass_le hp h.width h.height
      have hrow := rowBytes_le hlegal (p.width h.width)
      have hpass : p.height h.height * (1 + h.rowBytes (p.width h.width)) ≤ h.height * (1 + 8 * h.width) :=
        Nat.mul_le_mul hheight (by omega)
      rw [List.foldr_cons, List.length_cons, Nat.succ_mul, Nat.add_comm]
      exact Nat.add_le_add ih hpass
  have hpasses : h.passes.length ≤ 7 := by
    unfold Header.passes
    cases h.interlaced <;> decide
  exact Nat.le_trans (hsum (passes_match h)) (Nat.mul_le_mul_right _ hpasses)

theorem sides_of_isLegal {h : Header} (hlegal : h.isLegal = true) : 1 ≤ h.width ∧ 1 ≤ h.height := by
  simp only [Header.isLegal, Bool.and_eq_true, decide_eq_true_eq] at hlegal
  exact ⟨hlegal.1.1.1.1, hlegal.1.1.2⟩

theorem pixels_le_loadedBytes (p : Preamble) : p.header.width * p.header.height ≤ p.loadedBytes := by
  have hsample : 1 ≤ p.format.sampleBytes := by
    unfold Format.sampleBytes
    split <;> decide
  have hbytes := Nat.mul_le_mul (Nat.mul_le_mul_left (p.header.width * p.header.height) p.format.channels_pos) hsample
  rwa [Nat.mul_one, Nat.mul_one] at hbytes

/-- The lines of an image that is not too large can be counted. -/
theorem scanlineBytes_lt {p : Preamble} (hlegal : p.header.isLegal = true) (hsmall : p.loadedBytes ≤ maxLoadedBytes) :
    p.header.scanlineBytes + Deflate.maxCopy < counterEnd := by
  have hlines := scanlineBytes_le hlegal
  have hwidth := (sides_of_isLegal hlegal).1
  have hpixels := Nat.le_trans (pixels_le_loadedBytes p) hsmall
  have hline : p.header.height * (1 + 8 * p.header.width) ≤ 9 * (p.header.width * p.header.height) := by
    calc p.header.height * (1 + 8 * p.header.width) ≤ p.header.height * (9 * p.header.width) :=
        Nat.mul_le_mul_left _ (by omega)
      _ = 9 * (p.header.width * p.header.height) := by rw [Nat.mul_left_comm, Nat.mul_comm p.header.height]
  simp only [maxLoadedBytes, Deflate.maxCopy, counterEnd] at *
  omega

theorem decodesData_decode {p : Preamble} (hlegal : p.header.isLegal = true) (bs : Bytes) :
    DecodesData p bs (do
      let pieces ← readImageData bs
      let lines ← Zlib.expand p.header.scanlineBytes pieces
      let passes ← readPasses p.header p.header.passes lines.toList
      return raster p passes) := by
  have hdata := readsImageData_readImageData bs
  cases hpieces : readImageData bs with
  | none => exact .brokenData (hpieces ▸ hdata)
  | some pieces =>
    rw [hpieces] at hdata
    have hstream := Zlib.unpacks_expand p.header.scanlineBytes pieces
    dsimp only [Option.bind_eq_bind, Option.bind_some]
    cases hlines : Zlib.expand p.header.scanlineBytes pieces with
    | none => exact .wrongStream hdata (hlines ▸ hstream)
    | some lines =>
      rw [hlines] at hstream
      have hsize := hstream.size_le trivial lines rfl
      have hrows := readsPasses_readPasses p.header p.header.passes lines.toList
      dsimp only [Option.bind_some]
      cases hpasses : readPasses p.header p.header.passes lines.toList with
      | none => exact .wrongLines hdata hstream (hpasses ▸ hrows)
      | some passes =>
        rw [hpasses] at hrows
        obtain ⟨hmap, hfull⟩ := hrows.full passes rfl
        exact .image hdata hstream hsize hrows (drawnFrom_raster hlegal hmap hfull)

theorem decodes_decode (bs : Bytes) : Decodes bs (decode bs) := by
  unfold decode
  cases hheader : readHeader bs with
  | none => exact .noHeader hheader
  | some x =>
    obtain ⟨p, r⟩ := x
    obtain ⟨c, -, -, -, h, hdata, rfl⟩ := exists_raw_of_readHeader hheader
    have hchunks := readsChunks_readPreamble h.opening r
    dsimp only [Option.bind_eq_bind, Option.bind_some]
    cases hpreamble : readPreamble h.opening r with
    | none => exact .wrongChunk hheader (hpreamble ▸ hchunks)
    | some y =>
      obtain ⟨p, rest⟩ := y
      rw [hpreamble] at hchunks
      have hlegal : p.header.isLegal = true := by
        rw [header_readPreamble hpreamble]
        exact isLegal_of_ofData? hdata
      dsimp only [Option.bind_some]
      split
      · rename_i hpalette
        exact .noPalette hheader hchunks hpalette.1 hpalette.2
      · rename_i hpalette
        split
        · rename_i hlarge
          exact .tooLarge hheader hchunks hlarge
        · rename_i hsmall
          have hsmall := Nat.le_of_not_lt hsmall
          exact .read hheader hchunks (fun hi hn => hpalette ⟨hi, hn⟩) hsmall (scanlineBytes_lt hlegal hsmall)
            (decodesData_decode hlegal rest)

/-! ## The image -/

/-- The image is the one of the file that consists of a header, other chunks and, from the first
    image data on, the rest. -/
structure Loaded (bs : Bytes) (h : Header) (chunks : List RawChunk) (rest : Bytes) (image : Raster) : Prop where
  file : bs = signature ++ (Chunk.write Chunk.header h.data ++ (chunks.flatMap RawChunk.bytes ++ rest))
  preamble : ∀ c ∈ chunks, c.kind ≠ Chunk.imageData
  imageData : Chunk.kind? rest = some Chunk.imageData
  legal : h.isLegal = true
  width : image.width = h.width ∧ 1 ≤ image.width
  height : image.height = h.height ∧ 1 ≤ image.height
  color : image.format.color = true ↔ h.color = .rgb ∨ h.color = .indexed ∨ h.color = .rgba
  alpha : image.format.alpha = true ↔ h.color = .greyAlpha ∨ h.color = .rgba ∨
    ∃ before c after, chunks = before ++ c :: after ∧ GivesTransparency h before c
  wide : image.format.wide = true ↔ h.depth = 16
  /-- The samples as bytes. -/
  bytes : image.bytes.length = image.width * image.height * image.format.channels * image.format.sampleBytes
  small : image.bytes.length ≤ maxLoadedBytes
  inRange : image.InRange

theorem length_rasterBytes (image : Raster) :
    image.bytes.length = image.width * image.height * image.format.channels * image.format.sampleBytes := by
  have hsample : ∀ s : UInt16, (if image.format.wide = true then [(s >>> 8).toUInt8, s.toUInt8] else [s.toUInt8]).length =
      image.format.sampleBytes := by
    intro s
    unfold Format.sampleBytes
    split <;> rfl
  rw [Raster.bytes, length_flatMap_of_length hsample, Array.length_toList, image.size_samples, Nat.mul_comm]

theorem exists_loaded {bs : Bytes} {image : Raster} (h : decode bs = some image) :
    ∃ hd chunks rest, Loaded bs hd chunks rest image := by
  obtain ⟨x, hx⟩ := exists_course h
  obtain ⟨c, hfile, hkind, hsound, hd, hdata, hopening⟩ := exists_raw_of_readHeader hx.header
  obtain ⟨chunks, hbody, hchunks, hall, hrest⟩ := exists_raws_of_readPreamble hx.chunks
  rw [hopening] at hall
  have hheader : x.preamble.header = hd := header_takeAll hall
  have hlegal := isLegal_of_ofData? hdata
  have hsides := sides_of_isLegal hlegal
  have hraster := hx.raster
  have hwidth : image.width = hd.width := by rw [← hraster, ← hheader]; rfl
  have hheight : image.height = hd.height := by rw [← hraster, ← hheader]; rfl
  have hformat : image.format = hd.format x.preamble.transparency.isSome := by rw [← hraster, ← hheader]; rfl
  have hbytes := length_rasterBytes image
  refine ⟨hd, chunks, x.tail, ⟨?_, hchunks, hrest, hlegal, ?_, ?_, ?_, ?_, ?_, hbytes, ?_, inRange_decode h⟩⟩
  · rw [hfile, write_of_sound hsound, hkind, data_of_ofData? hdata, hbody]
  · exact ⟨hwidth, hwidth ▸ hsides.1⟩
  · exact ⟨hheight, hheight ▸ hsides.2⟩
  · rw [hformat, Header.format]
    cases hd.color <;> simp
  · rw [hformat, ← (gained_of_takeAll hall).2, Header.format]
    cases hd.color <;> simp
  · rw [hformat, Header.format]
    simp
  · have hsmall := hx.small
    rw [hbytes, hwidth, hheight, hformat]
    rwa [Preamble.loadedBytes, Preamble.format, hheader] at hsmall

end IconMaker.Png
