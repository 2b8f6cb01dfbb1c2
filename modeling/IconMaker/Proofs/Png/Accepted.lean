import IconMaker.Proofs.Png.Container
import IconMaker.Proofs.Raster

/-
  IconMaker.Proofs.Png.Accepted — what is known of the image of any file that is accepted.

  The header is legal and no chunk changes it. Whatever the rest of the file says, palettes too
  short and lines never written to included, the samples are in the range of their format
  (`inRange_decode`).
-/

namespace IconMaker.Png

/-! ## The header -/

theorem isLegal_of_ofData? {bs : Bytes} {h : Header} (hd : Header.ofData? bs = some h) : h.isLegal = true := by
  unfold Header.ofData? at hd
  simp only [Option.bind_eq_bind, Option.bind_eq_some_iff] at hd
  obtain ⟨⟨w, r⟩, -, ⟨ht, r'⟩, -, hd⟩ := hd
  dsimp only at hd
  split at hd
  · rw [Option.bind_eq_some_iff] at hd
    obtain ⟨color, -, hd⟩ := hd
    split at hd
    · rename_i hlegal
      cases hd
      simp only [Bool.and_eq_true] at hlegal
      exact hlegal.1.1.1
    · cases hd
  · cases hd

theorem isLegal_of_readHeader {bs r : Bytes} {p : Preamble} (h : readHeader bs = some (p, r)) : p.header.isLegal = true := by
  unfold readHeader at h
  simp only [Option.bind_eq_bind, Option.bind_eq_some_iff] at h
  obtain ⟨⟨sign, r'⟩, -, ⟨c, r''⟩, -, h⟩ := h
  dsimp only at h
  split at h
  · rw [Option.bind_eq_some_iff] at h
    obtain ⟨hd, hlegal, h⟩ := h
    cases h
    exact isLegal_of_ofData? hlegal
  · cases h

theorem header_takeSound {p q : Preamble} {c : Chunk} (h : p.takeSound c = some q) : q.header = p.header := by
  unfold Preamble.takeSound at h
  repeat' split at h
  all_goals cases h
  all_goals rfl

theorem header_take {p q : Preamble} {c : Chunk} (h : p.take c = some q) : q.header = p.header := by
  unfold Preamble.take at h
  split at h
  · split at h
    · cases h; rfl
    · cases h
  · split at h
    · cases h
    · split at h
      · cases h
      · split at h
        · exact header_takeSound h
        · cases h; rfl

theorem header_readPreamble {p q : Preamble} {bs r : Bytes} (h : readPreamble p bs = some (q, r)) :
    q.header = p.header := by
  fun_induction readPreamble p bs with
  | case1 => cases h; rfl
  | case4 p bs _ c rest _ p' htake _ ih => rw [ih h, header_take htake]
  | _ => cases h

/-! ## The samples -/

theorem depth_cases {h : Header} (hl : h.isLegal = true) :
    h.depth = 1 ∨ h.depth = 2 ∨ h.depth = 4 ∨ h.depth = 8 ∨ h.depth = 16 := by
  unfold Header.isLegal at hl
  rw [Bool.and_eq_true, List.contains_iff_mem, ColorType.depths_eq] at hl
  exact ColorType.depth_le hl.2

theorem packedSample_lt (depth : Nat) (row : Array UInt8) (i : Nat) : packedSample depth row i < 2 ^ depth := by
  unfold packedSample
  split
  · rename_i hwide
    subst hwide
    have hhi := (row.getD (2 * i) 0).toNat_lt
    have hlo := (row.getD (2 * i + 1) 0).toNat_lt
    omega
  · split
    · rename_i hbyte
      subst hbyte
      exact (row.getD i 0).toNat_lt
    · exact Nat.mod_lt _ (Nat.two_pow_pos depth)

theorem storedSample_lt (h : Header) (passes : List PassRows) (x y c : Nat) :
    storedSample h passes x y c < 2 ^ h.depth := by
  unfold storedSample
  split
  · exact Nat.two_pow_pos _
  · exact packedSample_lt ..

variable {p : Preamble}

theorem maxSample_format (p : Preamble) : p.format.maxSample = if p.header.depth = 16 then 65535 else 255 := by
  simp [Preamble.format, Header.format, Format.maxSample]

theorem byte_le (p : Preamble) (b : UInt8) : b.toNat ≤ p.format.maxSample := by
  have := b.toNat_lt
  rw [maxSample_format]
  split <;> omega

theorem scaleSample_le (hl : p.header.isLegal = true) {v : Nat} (hv : v < 2 ^ p.header.depth) :
    scaleSample p.header.depth v ≤ p.format.maxSample := by
  rw [maxSample_format]
  unfold scaleSample
  rcases depth_cases hl with h | h | h | h | h <;> rw [h] at hv ⊢ <;> simp <;> omega

theorem paletteAlpha_le (p : Preamble) (n : Nat) (t : Option Transparency) (i : Nat) :
    paletteAlpha n t i ≤ p.format.maxSample := by
  have hopaque : 255 ≤ p.format.maxSample := byte_le p 255
  unfold paletteAlpha
  repeat' split
  · exact byte_le p _
  · exact hopaque
  · exact hopaque

theorem loadedSample_le (hl : p.header.isLegal = true) {stored : Nat → Nat}
    (hs : ∀ c, stored c < 2 ^ p.header.depth) (colors : Array (UInt8 × UInt8 × UInt8)) (c : Nat) :
    loadedSample p colors stored c ≤ p.format.maxSample := by
  have hopaque : (if p.header.depth = 16 then 65535 else 255) ≤ p.format.maxSample :=
    Nat.le_of_eq (maxSample_format p).symm
  unfold loadedSample
  split
  · dsimp only
    repeat' split
    all_goals first | exact byte_le p _ | exact paletteAlpha_le ..
  · split
    · exact scaleSample_le hl (hs c)
    · split
      · split
        · exact Nat.zero_le _
        · exact hopaque
      · exact hopaque

theorem inRange_raster (hl : p.header.isLegal = true) (passes : List PassRows) : (raster p passes).InRange := by
  refine Raster.inRange_tabulate fun x _ y _ c _ => ?_
  rw [UInt16.toNat_ofNat']
  exact Nat.le_trans (Nat.mod_le ..) (loadedSample_le hl (fun c => storedSample_lt ..) ..)

theorem inRange_decode {bs : Bytes} {r : Raster} (h : decode bs = some r) : r.InRange := by
  unfold decode at h
  simp only [Option.bind_eq_bind, Option.bind_eq_some_iff] at h
  obtain ⟨⟨p, r₁⟩, hheader, ⟨q, r₂⟩, hpreamble, h⟩ := h
  have hlegal : q.header.isLegal = true := by
    rw [header_readPreamble hpreamble]
    exact isLegal_of_readHeader hheader
  dsimp only at h
  split at h
  · cases h
  · split at h
    · cases h
    · simp only [Option.bind_eq_some_iff] at h
      obtain ⟨pieces, -, lines, -, passes, -, h⟩ := h
      cases h
      exact inRange_raster hlegal passes

end IconMaker.Png
