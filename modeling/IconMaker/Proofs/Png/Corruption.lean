import IconMaker.Proofs.Checksum
import IconMaker.Proofs.Conversion.Causes
import IconMaker.Proofs.Png.Chunks

/-
  IconMaker.Proofs.Png.Corruption — no bit of the header, the palette or the pixels changes
  unnoticed.

  The chunks that the image is made of are the header, a palette before the image data, and the
  first run of image data (`MakesImage`). Of a file that is accepted the check of each of them
  agrees (`sound_of_decode`), of the last pieces of the image data also when all pixels are
  there already. One bit turned over in the data or in the check leaves the file the same
  chunks, but the check of this one cannot agree before and after (`RawChunk.not_sound_flip`). So
  the file is refused, and a conversion of it changes nothing (`no_bit_changes_unnoticed`).
-/

namespace IconMaker.Png

namespace RawChunk

/-- The chunk with one bit turned over, the places counted from its data on and through its check. -/
def flip (c : RawChunk) (place bit : Nat) : RawChunk where
  kind := c.kind
  data := c.data.flipBit place bit
  sum := if place < c.data.length then c.sum else c.sum.flipBit (place - c.data.length) bit
  length_kind := c.length_kind
  length_data := by rw [Bytes.length_flipBit]; exact c.length_data
  length_sum := by split <;> simp [c.length_sum]

variable {c : RawChunk} {place bit : Nat}

theorem flipBit_bytes (c : RawChunk) (place bit : Nat) (rest : Bytes) (h : place < c.data.length + 4) :
    Bytes.flipBit (c.bytes ++ rest) (8 + place) bit = (c.flip place bit).bytes ++ rest := by
  have hfront : (Bytes.be 4 c.data.length ++ c.kind).length = 8 := by
    rw [List.length_append, Bytes.length_be, c.length_kind]
  have hbytes : ∀ d : RawChunk, d.data.length = c.data.length → d.kind = c.kind →
      d.bytes = (Bytes.be 4 c.data.length ++ c.kind) ++ (d.data ++ d.sum) := fun d hd hk => by
    rw [bytes, hd, hk, List.append_assoc]
  have hback : Bytes.flipBit (c.data ++ c.sum) place bit = (c.flip place bit).data ++ (c.flip place bit).sum := by
    rw [Bytes.flipBit_append, flip]
    dsimp only
    by_cases hdata : place < c.data.length
    · rw [if_pos hdata, if_pos hdata]
    · rw [if_neg hdata, if_neg hdata, Bytes.flipBit_eq_self (Nat.le_of_not_lt hdata)]
  have hinside : 8 + place < c.bytes.length := by rw [length_bytes]; omega
  rw [Bytes.flipBit_append, if_pos hinside, hbytes c rfl rfl, hbytes (c.flip place bit) (Bytes.length_flipBit ..) rfl,
    Bytes.flipBit_append, hfront, if_neg (by omega), Nat.add_sub_cancel_left, hback]

theorem check_injective {kind kind' data data' : Bytes} (h : Chunk.check kind data = Chunk.check kind' data') :
    Checksum.crc (kind ++ data) = Checksum.crc (kind' ++ data') := by
  have hnumber := congrArg Bytes.ofBE h
  rw [Chunk.check, Chunk.check, Bytes.ofBE_be_of_lt (UInt32.toNat_lt _), Bytes.ofBE_be_of_lt (UInt32.toNat_lt _)] at hnumber
  exact UInt32.toNat_inj.1 hnumber

/-- The check does not agree both with and without the bit. -/
theorem not_sound_flip (hplace : place < c.data.length + 4) (hbit : bit < 8) (h : c.Sound) : ¬(c.flip place bit).Sound := by
  intro hflip
  unfold Sound flip at hflip
  dsimp only at hflip
  by_cases hdata : place < c.data.length
  · obtain ⟨before, x, y, after, hx, hy, hne⟩ := Bytes.exists_flipBit hdata hbit
    rw [if_pos hdata, h, hy, hx] at hflip
    have hcrc := check_injective hflip
    rw [← List.append_assoc, ← List.append_assoc] at hcrc
    exact Checksum.crc_ne _ _ hne hcrc
  · have hsum : place - c.data.length < c.sum.length := by rw [c.length_sum]; omega
    obtain ⟨before, x, y, after, hx, hy, hne⟩ := Bytes.exists_flipBit hsum hbit
    rw [if_neg hdata, Bytes.flipBit_eq_self (Nat.le_of_not_lt hdata), ← h, hy, hx, List.append_cancel_left_eq, List.cons.injEq] at hflip
    exact hne hflip.1.symm

end RawChunk

/-! ## The chunks of the image -/

/-- A chunk behind these others is the header, a palette before the image data, or part of the first
    run of image data. -/
inductive MakesImage : List RawChunk → RawChunk → Prop
  | header {c : RawChunk} : c.kind = Chunk.header → MakesImage [] c
  | palette {before : List RawChunk} {c : RawChunk} : c.kind = Chunk.palette →
      (∀ d ∈ before, d.kind ≠ Chunk.imageData) → MakesImage before c
  | imageData {before run : List RawChunk} {c : RawChunk} : c.kind = Chunk.imageData →
      (∀ d ∈ before, d.kind ≠ Chunk.imageData) → (∀ d ∈ run, d.kind = Chunk.imageData) → MakesImage (before ++ run) c

/-- The file begins with the signature, these chunks and then this one. -/
def Stands (bs : Bytes) (before : List RawChunk) (c : RawChunk) : Prop :=
  ∃ rest, bs = signature ++ (before.flatMap RawChunk.bytes ++ (c.bytes ++ rest))

/-- Where chunk `c` begins that stands behind the others. -/
def chunkPlace (before : List RawChunk) : Nat := 8 + (before.flatMap RawChunk.bytes).length

/-- Byte `place` of a file is one of the data or the check of a chunk that makes the image. -/
def Guarded (bs : Bytes) (place : Nat) : Prop :=
  ∃ before c, MakesImage before c ∧ Stands bs before c ∧
    chunkPlace before + 8 ≤ place ∧ place < chunkPlace before + 8 + (c.data.length + 4)

variable {before run : List RawChunk} {c : RawChunk} {bs rest : Bytes} {image : Raster} {place bit : Nat}

theorem sound_of_take_palette {p q : Preamble} (hk : c.kind = Chunk.palette) (h : p.take c.read = some q) : c.Sound := by
  have hcritical : Chunk.isCritical c.read.kind = true := by
    rw [show c.read.kind = c.kind from rfl, hk]
    rfl
  unfold Preamble.take at h
  rw [if_pos hcritical] at h
  split at h
  · rename_i hc
    simp only [Bool.and_eq_true] at hc
    exact c.sound_read.1 hc.1.1.1.1
  · cases h

theorem sound_of_readImageData (hrun : ∀ d ∈ run, d.kind = Chunk.imageData) (hk : c.kind = Chunk.imageData)
    {pieces : List Bytes} (h : readImageData (run.flatMap RawChunk.bytes ++ (c.bytes ++ rest)) = some pieces) : c.Sound := by
  induction run generalizing pieces with
  | nil =>
    rw [List.flatMap_nil, List.nil_append, readImageData_raw rest hk] at h
    split at h
    · exact c.sound_read.1 ‹_›
    · cases h
  | cons d run ih =>
    rw [List.flatMap_cons, List.append_assoc, readImageData_raw _ (hrun d (List.mem_cons_self ..))] at h
    split at h
    · obtain ⟨ps, hps, -⟩ := Option.map_eq_some_iff.1 h
      exact ih (fun d hd => hrun d (List.mem_cons_of_mem _ hd)) hps
    · cases h

/-- The image data begins with its first chunk. -/
theorem readPreamble_run (p : Preamble) (hrun : ∀ d ∈ run, d.kind = Chunk.imageData) (hk : c.kind = Chunk.imageData) :
    readPreamble p (run.flatMap RawChunk.bytes ++ (c.bytes ++ rest)) =
      some (p, run.flatMap RawChunk.bytes ++ (c.bytes ++ rest)) := by
  cases run with
  | nil => rw [List.flatMap_nil, List.nil_append, readPreamble, kind?_raw, hk, if_pos rfl]
  | cons d run =>
    rw [List.flatMap_cons, List.append_assoc, readPreamble, kind?_raw, hrun d (List.mem_cons_self ..), if_pos rfl]

/-- The first chunk of a file that is accepted is its header. -/
theorem header_of_decode {d : RawChunk} (h : decode (signature ++ (d.bytes ++ rest)) = some image) :
    d.kind = Chunk.header ∧ d.Sound ∧ ∃ x : Course, x.Reads (signature ++ (d.bytes ++ rest)) image ∧ x.body = rest := by
  obtain ⟨x, hx⟩ := exists_course h
  have hheader := hx.header
  rw [readHeader_raw] at hheader
  split at hheader
  · rename_i hd
    obtain ⟨_, -, he⟩ := Option.map_eq_some_iff.1 hheader
    exact ⟨hd.1, d.sound_read.1 hd.2, x, hx, congrArg Prod.snd he.symm⟩
  · cases hheader

/-- Behind a header and chunks before the image data the reading of the chunks goes on. -/
theorem readPreamble_of_decode {d : RawChunk} {ds : List RawChunk} (hds : ∀ e ∈ ds, e.kind ≠ Chunk.imageData)
    (h : decode (signature ++ ((d :: ds).flatMap RawChunk.bytes ++ rest)) = some image) :
    ∃ (x : Course) (p : Preamble), x.Reads (signature ++ ((d :: ds).flatMap RawChunk.bytes ++ rest)) image ∧
      readPreamble p rest = some (x.preamble, x.tail) := by
  rw [List.flatMap_cons, List.append_assoc] at h ⊢
  obtain ⟨-, -, x, hx, hbody⟩ := header_of_decode h
  have hchunks := hx.chunks
  rw [hbody, readPreamble_raws _ hds] at hchunks
  obtain ⟨p, -, hrest⟩ := Option.bind_eq_some_iff.1 hchunks
  exact ⟨x, p, hx, hrest⟩

theorem sound_of_decode (hc : MakesImage before c)
    (h : decode (signature ++ (before.flatMap RawChunk.bytes ++ (c.bytes ++ rest))) = some image) : c.Sound := by
  cases hc with
  | header hk => exact (header_of_decode h).2.1
  | palette hk hbefore =>
    cases before with
    | nil => exact absurd ((header_of_decode h).1.symm.trans hk) (by decide)
    | cons d ds =>
      obtain ⟨x, p, -, hchunks⟩ := readPreamble_of_decode (fun e he => hbefore e (List.mem_cons_of_mem _ he)) h
      rw [readPreamble_raw p _ (by rw [hk]; decide)] at hchunks
      obtain ⟨q, htake, -⟩ := Option.bind_eq_some_iff.1 hchunks
      exact sound_of_take_palette hk htake
  | @imageData front run _ hk hfront hrun =>
    rw [List.flatMap_append, List.append_assoc] at h
    cases front with
    | nil =>
      cases run with
      | nil => exact absurd ((header_of_decode h).1.symm.trans hk) (by decide)
      | cons d run =>
        rw [List.flatMap_nil, List.nil_append, List.flatMap_cons, List.append_assoc] at h
        exact absurd ((header_of_decode h).1.symm.trans (hrun d (List.mem_cons_self ..))) (by decide)
    | cons d ds =>
      obtain ⟨x, p, hx, hchunks⟩ := readPreamble_of_decode (fun e he => hfront e (List.mem_cons_of_mem _ he)) h
      rw [readPreamble_run p hrun hk, Option.some.injEq, Prod.mk.injEq] at hchunks
      have hdata := hx.imageData
      rw [← hchunks.2] at hdata
      exact sound_of_readImageData hrun hk hdata

/-! ## One bit -/

/-- The file consists of the same chunks as before. -/
theorem flipBit_file (hlow : chunkPlace before + 8 ≤ place) (hhigh : place < chunkPlace before + 8 + (c.data.length + 4)) :
    Bytes.flipBit (signature ++ (before.flatMap RawChunk.bytes ++ (c.bytes ++ rest))) place bit =
      signature ++ (before.flatMap RawChunk.bytes ++ ((c.flip (place - (chunkPlace before + 8)) bit).bytes ++ rest)) := by
  unfold chunkPlace at hlow hhigh ⊢
  have hsignature : signature.length = 8 := rfl
  rw [Bytes.flipBit_append, hsignature, if_neg (by omega), Bytes.flipBit_append, if_neg (by omega)]
  have hplace : place - 8 - (before.flatMap RawChunk.bytes).length =
      8 + (place - (8 + (before.flatMap RawChunk.bytes).length + 8)) := by omega
  rw [hplace, RawChunk.flipBit_bytes c _ bit rest (by omega)]

theorem decode_flipBit (h : decode bs = some image) (hg : Guarded bs place) (hbit : bit < 8) :
    decode (bs.flipBit place bit) = none := by
  obtain ⟨before, c, hmakes, ⟨rest, rfl⟩, hlow, hhigh⟩ := hg
  have hsound := sound_of_decode hmakes h
  have hmakes' : MakesImage before (c.flip (place - (chunkPlace before + 8)) bit) := by
    cases hmakes with
    | header hk => exact .header hk
    | palette hk hbefore => exact .palette hk hbefore
    | imageData hk hbefore hrun => exact .imageData hk hbefore hrun
  rw [flipBit_file hlow hhigh]
  cases hd : decode (signature ++ (before.flatMap RawChunk.bytes
      ++ ((c.flip (place - (chunkPlace before + 8)) bit).bytes ++ rest))) with
  | none => rfl
  | some image' =>
    exact absurd (sound_of_decode hmakes' hd) (RawChunk.not_sound_flip (by omega) hbit hsound)

/-- A file that is accepted is refused when one bit is another one in the data or the check of a
    chunk that makes the image, and a conversion of it fails and leaves everything as it was. -/
theorem no_bit_changes_unnoticed {path : Path} (h : loadImage path (.ok bs) = .ok image) (hg : Guarded bs place)
    (hbit : bit < 8) :
    loadImage path (.ok (bs.flipBit place bit)) = .error (.undecodable path) ∧
      ∀ job caller w fs, Conversion.inputOf job caller w fs = .ok (bs.flipBit place bit) →
        convert job caller w fs = (.error (.undecodable job.input), fs) := by
  obtain ⟨_, hbs, hdecode⟩ := Conversion.loadImage_eq_ok_iff.1 h
  cases hbs
  have hrefused := decode_flipBit hdecode hg hbit
  refine ⟨Conversion.loadImage_eq_error_iff.2 (.undecodable rfl hrefused), fun job caller w fs hinput => ?_⟩
  have herror : (convert job caller w fs).1 = .error (.undecodable job.input) :=
    Conversion.error_of_cause (.input (.undecodable hinput hrefused))
  exact Prod.ext herror ((Conversion.failure_changes_nothing job caller fs).1 w _ _ (Prod.ext herror rfl))

/-! ## One bit of one pixel -/

open Conversion (onePixel onePixelJob anyone loadImage_onePixel)

def pixelHeader : RawChunk :=
  ⟨Chunk.header, [0, 0, 0, 1, 0, 0, 0, 1, 8, 0, 0, 0, 0], [58, 126, 155, 85], rfl, by decide, rfl⟩

def pixelData : RawChunk :=
  ⟨Chunk.imageData, [120, 1, 1, 2, 0, 253, 255, 0, 0, 0, 2, 0, 1], [126, 5, 13, 210], rfl, by decide, rfl⟩

theorem guarded_onePixel : Guarded onePixel 49 :=
  ⟨[pixelHeader] ++ [], pixelData, .imageData rfl (by simp [pixelHeader]; decide) (by simp),
    ⟨Chunk.write Chunk.imageEnd [], by decide +kernel⟩, by decide, by decide⟩

/-- Where the pixel's own byte has another lowest bit, and something is at the output. -/
def damagedFiles : Files := ⟨[([[98]], .file 0o644#12 [1, 2]), ([[97]], .file 0o600#12 (onePixel.flipBit 49 0))]⟩

theorem inputOf_damagedFiles : Conversion.inputOf onePixelJob anyone .calm damagedFiles = .ok (onePixel.flipBit 49 0) := by
  cbv

theorem a_changed_pixel_is_noticed :
    (∃ image, loadImage [97] (.ok onePixel) = .ok image) ∧ Guarded onePixel 49 ∧
      loadImage [97] (.ok (onePixel.flipBit 49 0)) = .error (.undecodable [97]) ∧
      convert onePixelJob anyone .calm damagedFiles = (.error (.undecodable [97]), damagedFiles) := by
  obtain ⟨image, himage⟩ := loadImage_onePixel
  obtain ⟨hrefused, hconvert⟩ := no_bit_changes_unnoticed himage guarded_onePixel (show 0 < 8 by decide)
  exact ⟨⟨image, himage⟩, guarded_onePixel, hrefused, hconvert _ _ _ _ inputOf_damagedFiles⟩

end IconMaker.Png
