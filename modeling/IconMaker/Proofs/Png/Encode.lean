import IconMaker.Png.Encode
import IconMaker.Proofs.Png.Loading

/-
  IconMaker.Proofs.Png.Encode — the files that are written are PNG files of their rasters.

  A raster with colour and alpha of 8 bits is a picture (`Raster.picture`). What is relied on of a
  writer is that its files are encodings of these pictures (`LawfulWriter`), whatever filters,
  blocks and chunks it chooses. So a file `Shows` its raster by the format alone, and reading it
  gives the raster back (`decode_write`). The encoding that `encode` makes (`Raster.encoding`) has
  one pass, no filters, stored blocks and one chunk.
-/

namespace IconMaker

namespace Raster

/-- A raster whose file can be an entry of an icon. -/
structure Plain (r : Raster) : Prop where
  format : r.format = .rgba8
  width : 1 ≤ r.width ∧ r.width ≤ 256
  height : 1 ≤ r.height ∧ r.height ≤ 256
  inRange : r.InRange

/-- What the file of a raster is to say. -/
def picture (r : Raster) : Png.Picture :=
  ⟨r.width, r.height, 8, .rgba, fun x y c => (r.sample x y c).toNat, [], none⟩

/-- The bytes of row `y`. -/
def row (r : Raster) (y : Nat) : Bytes := (r.bytes.drop (y * (4 * r.width))).take (4 * r.width)

def lines (r : Raster) : List Png.Line := (List.range r.height).map fun y => ⟨0, r.row y⟩

def encoding (r : Raster) : Png.Encoding where
  interlaced := false
  passes := [r.lines]
  pieces := [Zlib.stored (Png.scanlines (4 * r.width) r.height r.bytes)]

variable {r : Raster}

/-! ## The bytes of a row -/

theorem bytes_plain (h : r.Plain) : r.bytes = r.samples.toList.map UInt16.toUInt8 := by
  unfold bytes
  rw [h.format]
  exact List.flatMap_pure_eq_map _ _

theorem length_bytes (h : r.Plain) : r.bytes.length = r.width * r.height * 4 := by
  rw [bytes_plain h, List.length_map, Array.length_toList, r.size_samples, h.format]
  rfl

theorem length_row (h : r.Plain) {y : Nat} (hy : y < r.height) : (r.row y).length = 4 * r.width := by
  have hrows := Nat.mul_le_mul_right r.width (Nat.succ_le_of_lt hy)
  rw [Nat.succ_mul, Nat.mul_comm r.height] at hrows
  have hplace : y * (4 * r.width) = 4 * (y * r.width) := Nat.mul_left_comm ..
  rw [row, List.length_take, List.length_drop, length_bytes h]
  omega

theorem byte_row (h : r.Plain) {x y c : Nat} (hx : x < r.width) (hy : y < r.height) (hc : c < 4) :
    ((r.row y).getD (x * 4 + c) 0).toNat = (r.sample x y c).toNat := by
  have hplace : y * (4 * r.width) + (x * 4 + c) = (y * r.width + x) * 4 + c := by
    rw [Nat.mul_left_comm]
    omega
  have hchannels : r.format.channels = 4 := by rw [h.format]; rfl
  have hlt : (y * r.width + x) * 4 + c < r.samples.size := by
    rw [r.size_samples, hchannels]
    exact place_lt hx hy hc
  have hbyte := h.inRange _ (Array.getElem_mem hlt)
  rw [h.format] at hbyte
  have hmax : Format.rgba8.maxSample = 255 := rfl
  rw [row, List.getD_eq_getElem?_getD, List.getElem?_take_of_lt (by omega), List.getElem?_drop, bytes_plain h, hplace,
    List.getElem?_map, Array.getElem?_toList, sample, hchannels, Array.getD_eq_getD_getElem?, Array.getElem?_eq_getElem hlt,
    Option.map_some, Option.getD_some, Option.getD_some, UInt16.toNat_toUInt8]
  omega

end Raster

namespace Png

/-- By the format, the bytes are a file of 8-bit samples with colour and alpha, and stand for
    the raster. -/
def Shows (bs : Bytes) (r : Raster) : Prop :=
  ∃ p : Picture, ∃ e : Encoding, p.Legal ∧ e.Legal .format p ∧ p.color = .rgba ∧ p.depth = 8 ∧ bs = e.file p ∧
    p.loaded = r

variable {r : Raster}

/-! ## The lines -/

theorem filtered_zero (back : Nat) (above row : Bytes) : filtered 0 back above row = row := by
  refine List.ext_getElem (length_filtered ..) fun i _ _ => ?_
  simp only [filtered, List.getElem_mapIdx, predicted, UInt8.sub_zero]

theorem scanlines_eq (back n k : Nat) (above bs : Bytes) :
    scanlines n k bs = filteredLines back above ((List.range k).map fun y => ⟨0, (bs.drop (y * n)).take n⟩) := by
  induction k generalizing above bs with
  | zero => rfl
  | succ k ih =>
    have hrest : ∀ y, (bs.drop n).drop (y * n) = bs.drop ((y + 1) * n) := fun y => by
      rw [List.drop_drop, Nat.succ_mul, Nat.add_comm]
    rw [scanlines, List.range_succ_eq_map, List.map_cons, filteredLines, filtered_zero, List.map_map, Nat.zero_mul,
      List.drop_zero, ih]
    simp only [hrest]
    rfl

theorem data_encoding (r : Raster) :
    r.encoding.data r.picture = scanlines (4 * r.width) r.height r.bytes := by
  rw [scanlines_eq r.picture.pixelBytes]
  exact List.append_nil _

theorem packs_row (h : r.Plain) {y : Nat} (hy : y < r.height) : r.picture.Packs (List.range r.width) y (r.row y) := by
  refine ⟨?_, fun x hx c hc k hk => ?_⟩
  · rw [r.length_row h hy, List.length_range]
    show 4 * r.width = (r.width * 4 * 8 + 7) / 8
    omega
  · have hc : c < 4 := hc
    have hk : k < 8 := hk
    have hx : x < r.width := by rwa [List.length_range] at hx
    have hplace : (x * 4 + c) * 8 + k = 8 * (x * 4 + c) + k := by omega
    show Picture.rowBit (r.row y) ((x * 4 + c) * 8 + k) = (r.sample ((List.range r.width).getD x 0) y c).toNat.testBit (7 - k)
    rw [hplace, rowBit_byte _ _ hk, Raster.byte_row h hx hy hc, List.getD_eq_getElem?_getD, List.getElem?_range hx]
    rfl

theorem columns_whole (width y : Nat) : columns false 1 width y = List.range width :=
  List.filter_eq_self.2 fun _ _ => rfl

theorem rows_whole {width : Nat} (h : 1 ≤ width) (height : Nat) : rows false 1 width height = List.range height := by
  refine List.filter_eq_self.2 fun y _ => ?_
  rw [columns_whole]
  simp
  omega

theorem legalPass_lines_whole (h : r.Plain) : r.picture.LegalPass false 1 r.lines := by
  unfold Picture.LegalPass Raster.lines
  rw [show r.picture.width = r.width from rfl, show r.picture.height = r.height from rfl, rows_whole h.width.1,
    List.forall₂_map_right_iff, List.forall₂_same]
  intro y hy
  rw [columns_whole]
  exact ⟨Nat.zero_lt_succ 4, packs_row h (List.mem_range.1 hy)⟩

/-! ## The file -/

theorem encode_eq_file (r : Raster) : encode r = r.encoding.file r.picture := by
  have hheader : r.encoding.headerData r.picture = (⟨r.width, r.height, 8, .rgba, false⟩ : Header).data := rfl
  have hpreamble : Encoding.preambleChunks r.picture = [] := rfl
  have himage : r.encoding.imageChunks
      = Chunk.write Chunk.imageData (Zlib.stored (scanlines (4 * r.width) r.height r.bytes)) ++ Chunk.write Chunk.imageEnd [] :=
    by rw [Encoding.imageChunks, Raster.encoding, List.flatMap_singleton]
  rw [Encoding.file, hheader, hpreamble, himage, List.append_nil, encode, List.append_assoc]

theorem picture_legal (h : r.Plain) : r.picture.Legal where
  width := ⟨h.width.1, Nat.lt_of_le_of_lt h.width.2 (by decide)⟩
  height := ⟨h.height.1, Nat.lt_of_le_of_lt h.height.2 (by decide)⟩
  depth := List.mem_cons_self ..
  samples := fun x _ y _ c _ => by
    have := Raster.sample_le h.inRange x y c
    rw [h.format] at this
    exact Nat.lt_succ_of_le this
  palette := fun hi => by cases hi
  clear := fun t ht => by cases ht

theorem length_scanlines (n k : Nat) (bs : Bytes) : (scanlines n k bs).length ≤ k * (1 + n) := by
  induction k generalizing bs with
  | zero => exact Nat.zero_le _
  | succ k ih =>
    have := ih (bs.drop n)
    rw [scanlines, List.length_cons, List.length_append, List.length_take, Nat.succ_mul]
    omega

theorem length_stored_scanlines (h : r.Plain) :
    (Zlib.stored (scanlines (4 * r.width) r.height r.bytes)).length ≤ 524811 := by
  have hstored := Zlib.length_stored (scanlines (4 * r.width) r.height r.bytes)
  have hlines := length_scanlines (4 * r.width) r.height r.bytes
  have hside : r.height * (1 + 4 * r.width) ≤ 256 * 1025 :=
    Nat.mul_le_mul h.height.2 (by have := h.width.2; omega)
  omega

theorem encoding_legal (rules : Deflate.Rules) (h : r.Plain) : r.encoding.Legal rules r.picture where
  passes := .cons (legalPass_lines_whole h) .nil
  stream := by
    rw [data_encoding]
    show Zlib.Expands rules [_].flatten _
    rw [List.flatten_singleton]
    exact Zlib.expands_stored rules _
  pieces := fun b hb => by
    rw [List.mem_singleton.1 hb]
    exact Nat.lt_of_le_of_lt (length_stored_scanlines h) (by decide)

theorem loaded_picture (h : r.Plain) : r.picture.loaded = r := by
  have hformat : r.picture.format = r.format := by rw [h.format]; rfl
  conv => rhs; rw [← Raster.tabulate_sample r]
  unfold Picture.loaded
  rw [hformat]
  refine Raster.tabulate_congr fun x _ y _ c hc => ?_
  have hsample : r.picture.loadedSample x y c = (r.sample x y c).toNat := by
    unfold Picture.loadedSample
    split
    · rfl
    · rfl
  rw [hsample, UInt16.ofNat_toNat]

theorem length_encode (h : r.Plain) : (encode r).length ≤ 600000 := by
  have := length_stored_scanlines h
  have hheader : (⟨r.width, r.height, 8, .rgba, false⟩ : Header).data.length = 13 := by
    simp [Header.data, Bytes.length_be]
  simp only [encode, List.length_append, hheader, Chunk.length_write (show Chunk.header.length = 4 from rfl),
    Chunk.length_write (show Chunk.imageData.length = 4 from rfl), Chunk.length_write (show Chunk.imageEnd.length = 4 from rfl)]
  show 8 + _ + _ + (0 + 12) ≤ _
  omega

/-! ## Writers -/

/-- What a writer has to be like: its files are encodings of their rasters by the format, such as the
    reader takes, and even 256 of them are far from as long as four bytes can tell. -/
class LawfulWriter extends Writer where
  encodes : ∀ r : Raster, r.Plain →
    ∃ e : Encoding, e.Legal .format r.picture ∧ e.Legal .reader r.picture ∧ write r = e.file r.picture
  length_le : ∀ r : Raster, r.Plain → (write r).length ≤ 2 ^ 23

instance lawfulStoring : LawfulWriter where
  toWriter := storing
  encodes r h := ⟨r.encoding, encoding_legal .format h, encoding_legal .reader h, encode_eq_file r⟩
  length_le _ h := Nat.le_trans (length_encode h) (by decide)

variable [LawfulWriter]

theorem shows_write (h : r.Plain) : Shows (Writer.write r) r := by
  obtain ⟨e, hformat, -, hfile⟩ := LawfulWriter.encodes r h
  exact ⟨r.picture, e, picture_legal h, hformat, rfl, rfl, hfile, loaded_picture h⟩

theorem decode_write (h : r.Plain) : decode (Writer.write r) = some r := by
  have hsize : r.picture.loadedBytes ≤ maxLoadedBytes := by
    have hsides : r.width * r.height ≤ 256 * 256 := Nat.mul_le_mul h.width.2 h.height.2
    show r.width * r.height * 4 * 1 ≤ 512 * 1024 * 1024
    omega
  obtain ⟨e, -, hreader, hfile⟩ := LawfulWriter.encodes r h
  rw [hfile, decode_file (picture_legal h) hreader hsize, loaded_picture h]

end Png

end IconMaker
