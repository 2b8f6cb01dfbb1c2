import IconMaker.Conversion
import IconMaker.Proofs.Icon
import IconMaker.Proofs.Png.Accepted
import IconMaker.Proofs.Png.Encode
import IconMaker.Proofs.SizeList

/-
  IconMaker.Proofs.Conversion.Entries — what an icon shows of an image.

  There is an entry for every size (`renderFrames_eq`). An icon of these entries has the header, the
  edges and the depth that the format asks for, the payloads follow one another to the end of the
  file, every number fits its field, and payload `i` is a PNG file of the image in size `i`: by the
  format it shows it, and reading it gives it back (`Icon.shows_of_entries`). Nothing else has an
  influence on what an entry shows than the image, the filter and the size, whatever the writer of
  the PNG files is.

  Two encodings are stacked here, and each has its own theorems: `Png.shows_write` and
  `Png.decode_write`, `Icon.tiled_encode` and `Icon.payload_encode`.
-/

namespace IconMaker

/-- The entry of one size. -/
def entry [Png.Writer] (image : Raster) (filter : Filter) (s : Size) : Frame :=
  ⟨s.edge, s.edge, Png.Writer.write (entryImage image filter s)⟩

variable {image : Raster} {filter : Filter} {s : Size}

theorem entryImage_sides (image : Raster) (filter : Filter) (s : Size) :
    (entryImage image filter s).width = s.edge ∧ (entryImage image filter s).height = s.edge :=
  image.resize_sides filter s.edge s.edge

theorem plain_entryImage (h : image.InRange) (filter : Filter) (s : Size) : (entryImage image filter s).Plain where
  format := rfl
  width := by
    rw [(entryImage_sides ..).1]
    exact ⟨s.pos, s.le_max⟩
  height := by
    rw [(entryImage_sides ..).2]
    exact ⟨s.pos, s.le_max⟩
  inRange := Raster.inRange_toRgba8 (Raster.inRange_resize h _ _ _)

theorem renderFrame_eq [Png.Writer] (image : Raster) (filter : Filter) (s : Size) :
    renderFrame image filter s = .ok (entry image filter s) := by
  obtain ⟨hw, hh⟩ := entryImage_sides image filter s
  have hle : s.edge ≤ 256 := s.le_max
  unfold renderFrame Frame.ofRaster?
  rw [hw, hh, if_pos ⟨s.pos, hle, s.pos, hle⟩]
  rfl

/-- There is an entry for every size. -/
theorem renderFrames_eq [Png.Writer] (image : Raster) (filter : Filter) (sizes : SizeList) :
    renderFrames image filter sizes = .ok (sizes.sizes.map (entry image filter)) := by
  have hframe : renderFrame image filter = fun s => pure (entry image filter s) :=
    funext fun s => renderFrame_eq image filter s
  unfold renderFrames
  rw [hframe]
  exact List.mapM_pure

theorem inRange_loadImage {path : Path} {r : Except IoError Bytes} (h : loadImage path r = .ok image) : image.InRange := by
  unfold loadImage at h
  split at h
  · cases h
  · cases h
  · split at h
    · cases h
    · cases h
      exact Png.inRange_decode ‹_›

namespace Icon

/-- The icon has an entry for every size, in their order; of one size it shows `picture`. -/
structure Shows (icon : Bytes) (sizes : SizeList) (picture : Size → Raster) : Prop where
  describes : Describes icon sizes.edges
  tiled : Tiled icon sizes.sizes.length
  /-- No number is too large for its field. -/
  fits : sizes.sizes.length < 2 ^ 16 ∧ icon.length < 2 ^ 32
  sides : ∀ s ∈ sizes.sizes, (picture s).width = s.edge ∧ (picture s).height = s.edge ∧ (picture s).format = .rgba8
  payload_shows : ∀ i s, sizes.sizes[i]? = some s → Png.Shows (payload icon i) (picture s)
  payload_decodes : ∀ i s, sizes.sizes[i]? = some s → Png.decode (payload icon i) = some (picture s)
  /-- The entries that the reader of icons finds are these images and no others. -/
  read : ∃ es, parse? icon = some es ∧ es.map (fun e => Png.decode e.2) = sizes.sizes.map fun s => some (picture s)

variable {sizes : SizeList} {icon : Bytes}

/-- An icon begins with its header. -/
theorem Shows.ne_nil {picture : Size → Raster} (h : Shows icon sizes picture) : icon ≠ [] := by
  intro e
  subst e
  obtain ⟨es, he, -⟩ := h.read
  cases he

theorem length_payloads {k : Nat} {fs : List Frame} (h : ∀ f ∈ fs, f.payload.length ≤ k) :
    (fs.flatMap Frame.payload).length ≤ fs.length * k := by
  induction fs with
  | nil => exact Nat.zero_le _
  | cons f fs ih =>
    have hfirst := h f (List.mem_cons_self ..)
    have hrest := ih fun g hg => h g (List.mem_cons_of_mem _ hg)
    rw [List.flatMap_cons, List.length_append, List.length_cons, Nat.succ_mul]
    omega

/-- There are entries, and not too many of them. -/
theorem exists_encode [Png.Writer] (image : Raster) (filter : Filter) (sizes : SizeList) :
    ∃ icon, encode (sizes.sizes.map (entry image filter)) = some icon := by
  have hfew : ¬ (sizes.sizes.map (entry image filter) = [] ∨
      (sizes.sizes.map (entry image filter)).length > maxEntries) := by
    have hcount := sizes.length_le
    rw [List.map_eq_nil_iff, List.length_map, maxEntries]
    intro h
    rcases h with h | h
    · exact sizes.nonempty h
    · omega
  rw [encode, if_neg hfew]
  exact ⟨_, rfl⟩

/-- Even 256 entries of the largest size are far from four bytes. -/
theorem short_of_entries [Png.LawfulWriter] (h : image.InRange)
    (he : encode (sizes.sizes.map (entry image filter)) = some icon) :
    Short icon := by
  have hpayloads : ((sizes.sizes.map (entry image filter)).flatMap Frame.payload).length
      ≤ sizes.sizes.length * 2 ^ 23 := by
    have hle : ∀ f ∈ sizes.sizes.map (entry image filter), f.payload.length ≤ 2 ^ 23 := by
      intro f hf
      obtain ⟨s, -, rfl⟩ := List.mem_map.1 hf
      exact Png.LawfulWriter.length_le _ (plain_entryImage h filter s)
    have := length_payloads hle
    rwa [List.length_map] at this
  have hcount := sizes.length_le
  rw [Short, ← start_length he, start, List.take_length, List.length_map]
  omega

theorem shows_of_entries [Png.LawfulWriter] (h : image.InRange)
    (he : encode (sizes.sizes.map (entry image filter)) = some icon) :
    Shows icon sizes (entryImage image filter) := by
  have hshort := short_of_entries h he
  have hcount := sizes.length_le
  have hpayload : ∀ i s, sizes.sizes[i]? = some s → payload icon i = Png.Writer.write (entryImage image filter s) := by
    intro i s hs
    refine payload_encode he hshort (f := entry image filter s) ?_
    rw [List.getElem?_map, hs]
    rfl
  refine ⟨?_, ?_, ⟨by omega, hshort⟩, fun s _ => ?_, fun i s hs => ?_, fun i s hs => ?_, _, parse?_encode he hshort, ?_⟩
  · refine describes_encode he (by rw [List.map_map]; rfl) (by rw [List.map_map]; rfl) fun n hn => ?_
    obtain ⟨s, -, rfl⟩ := List.mem_map.1 hn
    exact ⟨s.pos, s.le_max⟩
  · have := tiled_encode he hshort
    rwa [List.length_map] at this
  · obtain ⟨hw, hh⟩ := entryImage_sides image filter s
    exact ⟨hw, hh, rfl⟩
  · rw [hpayload i s hs]
    exact Png.shows_write (plain_entryImage h filter s)
  · rw [hpayload i s hs]
    exact Png.decode_write (plain_entryImage h filter s)
  · have hmap : ∀ es : List (Record × Bytes), es.map (fun e => Png.decode e.2) = (es.map Prod.snd).map Png.decode := by
      intro es
      rw [List.map_map]
      rfl
    rw [hmap, map_payload_entriesFrom, List.map_map, List.map_map]
    exact List.map_congr_left fun s _ => Png.decode_write (plain_entryImage h filter s)

end Icon

end IconMaker
