import IconMaker.Png.Decode
import IconMaker.Proofs.Bytes
import IconMaker.Proofs.Png.Picture

/-
  IconMaker.Proofs.Png.Container — the chunks of a file read back.

  `next?_write` is the one chunk; from it `readHeader_file`, `readPreamble_file` and
  `readImageData_file` follow the file from its signature to its end. `Encoding.preamble` is
  what the reader knows when it comes to the image data.
-/

namespace IconMaker

namespace Png

/-! ## One chunk -/

namespace Chunk

variable {kind data : Bytes}

theorem length_check (kind data : Bytes) : (check kind data).length = 4 := Bytes.length_be ..

theorem length_write (hk : kind.length = 4) : (write kind data).length = data.length + 12 := by
  simp only [write, List.length_append, Bytes.length_be, length_check, hk]
  omega

theorem next?_write (rest : Bytes) (hk : kind.length = 4) (hd : data.length < 2 ^ 32) :
    next? (write kind data ++ rest) = some (⟨kind, data, true⟩, rest) := by
  unfold next? write
  simp only [List.append_assoc]
  rw [Bytes.split?_of_length _ (Bytes.length_be ..)]
  dsimp only [Option.bind_eq_bind, Option.bind_some]
  rw [Bytes.split?_of_length _ hk]
  dsimp only [Option.bind_some]
  rw [Bytes.ofBE_be_of_lt hd, Bytes.split?_append]
  dsimp only [Option.bind_some]
  rw [Bytes.split?_of_length _ (length_check ..)]
  simp

theorem kind?_write (rest : Bytes) (hk : kind.length = 4) : kind? (write kind data ++ rest) = some kind := by
  unfold kind? write
  simp only [List.append_assoc]
  rw [Bytes.split?_of_length _ (Bytes.length_be ..)]
  dsimp only [Option.bind_eq_bind, Option.bind_some]
  rw [Bytes.split?_of_length _ hk]
  rfl

end Chunk

/-! ## The header -/

namespace ColorType

theorem samples_eq (t : ColorType) : t.samples = t.channels := by
  cases t <;> rfl

theorem depths_eq (t : ColorType) : t.depths = t.legalDepths := by
  cases t <;> rfl

theorem ofCode?_number (t : ColorType) : ofCode? (UInt8.ofNat t.number).toNat = some t := by
  cases t <;> rfl

theorem depth_le {t : ColorType} {d : Nat} (h : d ∈ t.legalDepths) : d = 1 ∨ d = 2 ∨ d = 4 ∨ d = 8 ∨ d = 16 := by
  cases t <;> simp [legalDepths] at h <;> omega

end ColorType

variable {p : Picture} {e : Encoding}

def Encoding.header (p : Picture) (e : Encoding) : Header := ⟨p.width, p.height, p.depth, p.color, e.interlaced⟩

theorem header_isLegal (hp : p.Legal) : (e.header p).isLegal = true := by
  obtain ⟨hw, hw'⟩ := hp.width
  obtain ⟨hh, hh'⟩ := hp.height
  simp only [Header.isLegal, Encoding.header, Header.maxSide, Bool.and_eq_true, List.contains_iff_mem,
    ColorType.depths_eq]
  exact ⟨⟨⟨⟨decide_eq_true hw, decide_eq_true (Nat.le_pred_of_lt hw')⟩, decide_eq_true hh⟩,
    decide_eq_true (Nat.le_pred_of_lt hh')⟩, hp.depth⟩

theorem ofData?_headerData (hp : p.Legal) : Header.ofData? (e.headerData p) = some (e.header p) := by
  have hdepth : (UInt8.ofNat p.depth).toNat = p.depth := by
    rcases ColorType.depth_le hp.depth with h | h | h | h | h <;> rw [h] <;> rfl
  have hinterlace : ((if e.interlaced then 1 else 0 : UInt8) == 1) = e.interlaced := by
    cases e.interlaced <;> rfl
  have hle : (if e.interlaced then 1 else 0 : UInt8).toNat ≤ 1 := by
    cases e.interlaced <;> decide
  have hlegal := header_isLegal (p := p) (e := e) hp
  unfold Header.ofData? Encoding.headerData
  rw [List.append_assoc, Bytes.split?_of_length _ (Bytes.length_be ..)]
  dsimp only [Option.bind_eq_bind, Option.bind_some]
  rw [Bytes.split?_of_length _ (Bytes.length_be ..)]
  dsimp only [Option.bind_some]
  rw [ColorType.ofCode?_number]
  dsimp only [Option.bind_some]
  rw [Bytes.ofBE_be_of_lt (Nat.lt_trans hp.width.2 (by decide)), Bytes.ofBE_be_of_lt (Nat.lt_trans hp.height.2 (by decide)),
    hdepth, hinterlace]
  rw [Encoding.header] at hlegal ⊢
  simp [hlegal, hle]

/-- What the reader knows after the header. -/
def Encoding.opening (p : Picture) (e : Encoding) : Preamble := ⟨e.header p, none, none, none, false⟩

theorem readHeader_file (hp : p.Legal) :
    readHeader (e.file p) = some (e.opening p, Encoding.preambleChunks p ++ e.imageChunks) := by
  have hlen : (e.headerData p).length < 2 ^ 32 := by
    simp [Encoding.headerData, Bytes.length_be]
  unfold readHeader Encoding.file
  rw [List.append_assoc, List.append_assoc, Bytes.split?_of_length _ (show signature.length = 8 from rfl)]
  dsimp only [Option.bind_eq_bind, Option.bind_some]
  rw [Chunk.next?_write _ rfl hlen]
  dsimp only [Option.bind_some]
  rw [if_pos ⟨rfl, rfl, rfl⟩, ofData?_headerData hp]
  rfl

/-! ## The palette and the transparency -/

def Clear.read : Clear → Transparency
  | .color vs => .key (some vs)
  | .entries as => .alphas as

/-- What the reader knows when the image data begins. -/
def Encoding.preamble (p : Picture) (e : Encoding) : Preamble :=
  ⟨e.header p, if p.color = .indexed then some (Encoding.paletteData p) else none, p.clear.map Clear.read, none, false⟩

theorem readPreamble_chunk {q q' : Preamble} {kind data : Bytes} (rest : Bytes) (hk : kind.length = 4)
    (hd : data.length < 2 ^ 32) (hne : kind ≠ Chunk.imageData) (ht : q.take ⟨kind, data, true⟩ = some q') :
    readPreamble q (Chunk.write kind data ++ rest) = readPreamble q' rest := by
  have hlt : rest.length < (Chunk.write kind data ++ rest).length := by
    rw [List.length_append, Chunk.length_write hk]
    omega
  rw [readPreamble, Chunk.kind?_write _ hk, if_neg (by simpa using hne), Chunk.next?_write _ hk hd]
  dsimp only
  rw [ht]
  dsimp only
  rw [if_pos hlt]

theorem readPreamble_imageData (q : Preamble) (data rest : Bytes) :
    readPreamble q (Chunk.write Chunk.imageData data ++ rest) = some (q, Chunk.write Chunk.imageData data ++ rest) := by
  rw [readPreamble, Chunk.kind?_write _ rfl, if_pos rfl]

theorem length_paletteData (p : Picture) : (Encoding.paletteData p).length = 3 * p.palette.length := by
  rw [Encoding.paletteData]
  exact length_flatMap_of_length (n := 3) (fun _ => rfl) p.palette

theorem length_flatMap_be (vs : List Nat) : (vs.flatMap (Bytes.be 2)).length = 2 * vs.length :=
  length_flatMap_of_length (Bytes.length_be 2) vs

/-- The values of a key, two bytes each. -/
theorem pairs_flatMap_be {vs : List Nat} (h : ∀ v ∈ vs, v < 65536) :
    (List.range vs.length).map (fun i => ((vs.flatMap (Bytes.be 2)).getD (2 * i) 0).toNat * 256
      + ((vs.flatMap (Bytes.be 2)).getD (2 * i + 1) 0).toNat) = vs := by
  induction vs with
  | nil => rfl
  | cons v vs ih =>
    have hv := h v (List.mem_cons_self ..)
    have hbe : Bytes.be 2 v = [UInt8.ofNat (v / 256), UInt8.ofNat v] := rfl
    have hbytes : (UInt8.ofNat (v / 256)).toNat * 256 + (UInt8.ofNat v).toNat = v := by
      simp only [UInt8.toNat_ofNat']
      omega
    rw [List.length_cons, List.range_succ_eq_map, List.map_cons, List.map_map, List.flatMap_cons, hbe]
    refine congrArg₂ List.cons hbytes (Eq.trans ?_ (ih fun w hw => h w (List.mem_cons_of_mem _ hw)))
    refine List.map_congr_left fun i _ => ?_
    simp [Nat.mul_add]

theorem keyOf_flatMap_be {depth : Nat} {vs : List Nat} (hd : depth = 1 ∨ depth = 2 ∨ depth = 4 ∨ depth = 8 ∨ depth = 16)
    (hv : ∀ v ∈ vs, v < 2 ^ depth) : keyOf depth vs.length (vs.flatMap (Bytes.be 2)) = some (.key (some vs)) := by
  have hlen := length_flatMap_be vs
  have hle : 2 ^ depth ≤ 65536 := by rcases hd with rfl | rfl | rfl | rfl | rfl <;> decide
  have hpairs := pairs_flatMap_be fun v h => Nat.lt_of_lt_of_le (hv v h) hle
  unfold keyOf
  rw [if_neg (by omega)]
  dsimp only
  rw [hpairs, hlen, if_pos rfl]
  split
  · rename_i hlt
    have hle : 2 ^ depth ≤ 256 := by rcases hd with rfl | rfl | rfl | rfl | rfl <;> first | decide | omega
    have hmod : vs.map (· % 256) = vs := by
      conv_rhs => rw [← List.map_id vs]
      exact List.map_congr_left fun v h => Nat.mod_eq_of_lt (Nat.lt_of_lt_of_le (hv v h) hle)
    rw [hmod]
  · rfl

/-- The palette, if there is one, comes first. -/
theorem readPreamble_palette (rest : Bytes) (hp : p.Legal) (hi : p.color = .indexed) :
    readPreamble (e.opening p) (Chunk.write Chunk.palette (Encoding.paletteData p) ++ rest)
      = readPreamble { e.opening p with palette := some (Encoding.paletteData p) } rest := by
  obtain ⟨hlo, hhi, _⟩ := hp.palette hi
  have hlen := length_paletteData p
  refine readPreamble_chunk rest rfl (by omega) (by decide) ?_
  have hlo : decide (3 ≤ (Encoding.paletteData p).length) = true := decide_eq_true (by omega)
  have hhi : decide ((Encoding.paletteData p).length ≤ 768) = true := decide_eq_true (by omega)
  unfold Preamble.take
  rw [if_pos (show Chunk.isCritical Chunk.palette = true from rfl)]
  simp [Encoding.opening, hlo, hhi]

theorem transparencyOf_clearData {q : Preamble} {t : Clear} (hd : p.depth ∈ p.color.legalDepths)
    (hq : q.header = e.header p) (hpal : p.color = .indexed → q.palette ≠ none) (ht : p.ClearLegal t) :
    transparencyOf q (Encoding.clearData t) = some t.read := by
  have hd := ColorType.depth_le hd
  unfold transparencyOf
  rw [hq]
  cases t with
  | color vs =>
    obtain ⟨hcolor, hlen, hv⟩ := ht
    have hkey := keyOf_flatMap_be hd hv
    rw [hlen] at hkey
    rcases hcolor with hc | hc <;> rw [Picture.channels, hc] at hkey <;> simp only [Encoding.header, hc] <;> exact hkey
  | entries as =>
    obtain ⟨hcolor, hne, _⟩ := ht
    have := hpal hcolor
    simp only [Encoding.header, hcolor]
    cases hq' : q.palette with
    | none => exact absurd hq' this
    | some _ => simp [Encoding.clearData, hne, Clear.read]

theorem length_clearData {t : Clear} (hp : p.Legal) (ht : p.ClearLegal t) : (Encoding.clearData t).length ≤ 256 := by
  cases t with
  | color vs =>
    obtain ⟨hcolor, hlen, _⟩ := ht
    rw [Encoding.clearData, length_flatMap_be, hlen]
    rcases hcolor with hc | hc <;> simp [Picture.channels, hc, ColorType.channels, ColorType.hasColor, ColorType.hasAlpha]
  | entries as => exact Nat.le_trans ht.2.2 (hp.palette ht.1).2.1

theorem readPreamble_imageChunks (q : Preamble) (hne : e.pieces ≠ []) :
    readPreamble q e.imageChunks = some (q, e.imageChunks) := by
  unfold Encoding.imageChunks
  match e.pieces, hne with
  | b :: bs, _ =>
    rw [List.flatMap_cons, List.append_assoc]
    exact readPreamble_imageData q b _

theorem take_transparency {q : Preamble} {data : Bytes} (h : data.length ≤ 256) :
    q.take ⟨Chunk.transparency, data, true⟩
      = some { q with transparency := q.transparency.or (transparencyOf q data) } := by
  have hcritical : Chunk.isCritical Chunk.transparency = false := rfl
  have hdata : (Chunk.transparency == Chunk.frameData) = false := rfl
  have hframe : (Chunk.transparency == Chunk.frameControl) = false := rfl
  have hfit : decide (data.length ≤ maxTransparency) = true := decide_eq_true h
  unfold Preamble.take Preamble.takeSound
  simp only [hcritical, hdata, hframe, hfit, beq_self_eq_true, Bool.and_true, Bool.false_and, if_true,
    if_neg Bool.false_ne_true]

theorem readPreamble_clear {q : Preamble} (hp : p.Legal) (hne : e.pieces ≠ []) (hq : q.header = e.header p)
    (hpal : p.color = .indexed → q.palette ≠ none) (hnone : q.transparency = none) :
    readPreamble q (Encoding.clearChunk p.clear ++ e.imageChunks)
      = some ({ q with transparency := p.clear.map Clear.read }, e.imageChunks) := by
  cases hc : p.clear with
  | none =>
    rw [Encoding.clearChunk, List.nil_append, readPreamble_imageChunks q hne, Option.map_none, ← hnone]
  | some t =>
    have ht := hp.clear t hc
    have hlen := length_clearData hp ht
    have hread := transparencyOf_clearData hp.depth hq hpal ht
    rw [Encoding.clearChunk, readPreamble_chunk _ rfl (by omega) (by decide), readPreamble_imageChunks _ hne]
    rw [take_transparency hlen, hread, hnone]
    rfl

theorem readPreamble_file (hp : p.Legal) (hne : e.pieces ≠ []) :
    readPreamble (e.opening p) (Encoding.preambleChunks p ++ e.imageChunks) = some (e.preamble p, e.imageChunks) := by
  unfold Encoding.preambleChunks Encoding.preamble
  rw [List.append_assoc]
  by_cases hi : p.color = .indexed
  · have hnext := readPreamble_clear (q := { e.opening p with palette := some (Encoding.paletteData p) }) hp hne rfl
      (fun _ => Option.some_ne_none _) rfl
    rw [if_pos hi, readPreamble_palette _ hp hi, hnext, if_pos hi]
    rfl
  · have hnext := readPreamble_clear (q := e.opening p) hp hne rfl (fun h => absurd h hi) rfl
    rw [if_neg hi, List.nil_append, hnext, if_neg hi]
    rfl

/-! ## The image data -/

theorem readImageData_chunks {pieces : List Bytes} (h : ∀ b ∈ pieces, b.length < 2 ^ 31) :
    readImageData (pieces.flatMap (Chunk.write Chunk.imageData) ++ Chunk.write Chunk.imageEnd []) = some pieces := by
  induction pieces with
  | nil =>
    rw [List.flatMap_nil, readImageData, List.nil_append, ← List.append_nil (Chunk.write _ _), Chunk.kind?_write _ rfl]
    rfl
  | cons b bs ih =>
    have hb := h b (List.mem_cons_self ..)
    rw [List.flatMap_cons, List.append_assoc, readImageData, Chunk.kind?_write _ rfl]
    dsimp only
    rw [if_pos rfl, Chunk.next?_write _ rfl (by omega)]
    dsimp only
    have hlt : (bs.flatMap (Chunk.write Chunk.imageData) ++ Chunk.write Chunk.imageEnd []).length
        < (Chunk.write Chunk.imageData b ++ (bs.flatMap (Chunk.write Chunk.imageData)
          ++ Chunk.write Chunk.imageEnd [])).length := by
      have : (Chunk.write Chunk.imageData b).length = b.length + 12 := Chunk.length_write rfl
      simp only [List.length_append] at this ⊢
      omega
    rw [if_pos ⟨rfl, hlt⟩, ih fun b hb => h b (List.mem_cons_of_mem _ hb)]
    rfl

end Png

end IconMaker
