import IconMaker.Proofs.Conversion.Entries
import IconMaker.Proofs.Png.Safety

/-
  IconMaker.Proofs.Conversion.Inputs — what becomes of any input whatsoever.

  `every_input_is_an_image_or_refused`: whatever bytes the input has, they are read by the rules of
  `Png.Decodes`, which never leave a buffer or a table. Either this ends with the one error for
  what cannot be decoded, or with an image that is as its header has it (`Png.Loaded`), and from
  that image an entry of every size is made with every filter, from samples of the image only
  (`Resample.Within`).
-/

namespace IconMaker

namespace Resample

/-- There are samples to take, and none of them lies outside of `n`. -/
structure Within (t : Taps) (n : Nat) : Prop where
  nonempty : 0 < t.weights.size
  inside : t.first + t.weights.size ≤ n

theorem within_taps (k : Kernel) {n : Nat} (hn : 0 < n) (m o : Nat) : Within (taps k n m o) n := by
  unfold taps
  constructor <;> simp only [List.size_toArray, List.length_map, List.length_range] <;> omega

end Resample

/-- The entry of a size, which shows the image in that size. -/
structure EntryOf (image : Raster) (filter : Filter) (s : Size) (f : Frame) : Prop where
  width : f.width = s.edge
  height : f.height = s.edge
  payload : Png.decode f.payload = some (entryImage image filter s)

/-- There is an entry for every size, and to make it only samples of the image are taken. -/
structure Renders [Png.Writer] (image : Raster) (filter : Filter) (sizes : SizeList) : Prop where
  entries : ∃ frames, renderFrames image filter sizes = .ok frames ∧
    List.Forall₂ (EntryOf image filter) sizes.sizes frames
  columns : ∀ m o, Resample.Within (Resample.taps (Resample.kernel filter) image.width m o) image.width
  rows : ∀ m o, Resample.Within (Resample.taps (Resample.kernel filter) image.height m o) image.height

variable [Png.LawfulWriter]

theorem entryOf_entry {image : Raster} (h : image.InRange) (filter : Filter) (s : Size) :
    EntryOf image filter s (entry image filter s) :=
  ⟨rfl, rfl, Png.decode_write (plain_entryImage h filter s)⟩

theorem exists_entries {image : Raster} (h : image.InRange) (filter : Filter) (sizes : SizeList) :
    ∃ frames, renderFrames image filter sizes = .ok frames ∧
      List.Forall₂ (EntryOf image filter) sizes.sizes frames := by
  refine ⟨_, renderFrames_eq image filter sizes, ?_⟩
  rw [List.forall₂_map_right_iff]
  exact List.forall₂_same.2 fun s _ => entryOf_entry h filter s

/-- Of every file something becomes by the rules: an image with the sides, the format and the samples
    that the file states, of which there is an entry for every size with every filter, or the error
    for a file that is no image. -/
theorem every_input_is_an_image_or_refused (path : Path) (bs : Bytes) :
    Png.Decodes bs (Png.decode bs) ∧
      (loadImage path (.ok bs) = .error (.undecodable path) ∨
        ∃ image, loadImage path (.ok bs) = .ok image ∧ (∃ h chunks rest, Png.Loaded bs h chunks rest image) ∧
          ∀ filter sizes, Renders image filter sizes) := by
  refine ⟨Png.decodes_decode bs, ?_⟩
  unfold loadImage
  dsimp only
  cases hdecode : Png.decode bs with
  | none => exact Or.inl rfl
  | some image =>
    obtain ⟨h, chunks, rest, hloaded⟩ := Png.exists_loaded hdecode
    refine Or.inr ⟨image, rfl, ⟨h, chunks, rest, hloaded⟩, fun filter sizes => ?_⟩
    exact ⟨exists_entries hloaded.inRange filter sizes, Resample.within_taps _ hloaded.width.2,
      Resample.within_taps _ hloaded.height.2⟩

end IconMaker
