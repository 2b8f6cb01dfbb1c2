import IconMaker.Png.Decode
import IconMaker.Proofs.Bytes

/-
  IconMaker.Proofs.Png.Chunks — a file as the chunks that stand in it.

  A `RawChunk` is a chunk as it is written, right or wrong: its check is any four bytes. What the
  reader makes of a file that is given as raw chunks is said by one equation for each of its
  parts (`readHeader_raw`, `readPreamble_raws`, `readImageData_raw`), and every file that they get
  through is made of raw chunks (`exists_raw`, `exists_raws_of_readPreamble`). So what is known of
  raw chunks is known of all files.
-/

namespace IconMaker.Png

/-- A chunk as it stands in a file. -/
structure RawChunk where
  kind : Bytes
  data : Bytes
  sum : Bytes
  length_kind : kind.length = 4
  length_data : data.length < 2 ^ 32
  length_sum : sum.length = 4

namespace RawChunk

def bytes (c : RawChunk) : Bytes := Bytes.be 4 c.data.length ++ (c.kind ++ (c.data ++ c.sum))

/-- The check agrees. -/
def Sound (c : RawChunk) : Prop := c.sum = Chunk.check c.kind c.data

/-- The chunk as it is read. -/
def read (c : RawChunk) : Chunk := ⟨c.kind, c.data, c.sum == Chunk.check c.kind c.data⟩

theorem sound_read (c : RawChunk) : c.read.sound = true ↔ c.Sound := beq_iff_eq

@[simp] theorem length_bytes (c : RawChunk) : c.bytes.length = c.data.length + 12 := by
  simp only [bytes, List.length_append, Bytes.length_be, c.length_kind, c.length_sum]
  omega

end RawChunk

variable {c : RawChunk} {cs : List RawChunk} {p q : Preamble} {bs rest r : Bytes}

/-! ## One chunk -/

theorem next?_raw (c : RawChunk) (rest : Bytes) : Chunk.next? (c.bytes ++ rest) = some (c.read, rest) := by
  unfold Chunk.next? RawChunk.bytes
  simp only [List.append_assoc]
  rw [Bytes.split?_of_length _ (Bytes.length_be ..)]
  dsimp only [Option.bind_eq_bind, Option.bind_some]
  rw [Bytes.split?_of_length _ c.length_kind]
  dsimp only [Option.bind_some]
  rw [Bytes.ofBE_be_of_lt c.length_data, Bytes.split?_append]
  dsimp only [Option.bind_some]
  rw [Bytes.split?_of_length _ c.length_sum]
  rfl

theorem kind?_raw (c : RawChunk) (rest : Bytes) : Chunk.kind? (c.bytes ++ rest) = some c.kind := by
  unfold Chunk.kind? RawChunk.bytes
  simp only [List.append_assoc]
  rw [Bytes.split?_of_length _ (Bytes.length_be ..)]
  dsimp only [Option.bind_eq_bind, Option.bind_some]
  rw [Bytes.split?_of_length _ c.length_kind]
  rfl

theorem length_lt_raw (c : RawChunk) (rest : Bytes) : rest.length < (c.bytes ++ rest).length := by
  rw [List.length_append, RawChunk.length_bytes]
  omega

/-- Whatever is read as a chunk stands in the file as one. -/
theorem exists_raw {x : Chunk} (h : Chunk.next? bs = some (x, r)) :
    ∃ c : RawChunk, bs = c.bytes ++ r ∧ x = c.read := by
  unfold Chunk.next? at h
  simp only [Option.bind_eq_bind, Option.bind_eq_some_iff] at h
  obtain ⟨⟨size, r₁⟩, hs, ⟨kind, r₂⟩, hk, ⟨data, r₃⟩, hd, ⟨sum, r₄⟩, hm, h⟩ := h
  cases h
  obtain ⟨rfl, hsize⟩ := Bytes.split?_eq hs
  obtain ⟨rfl, hkind⟩ := Bytes.split?_eq hk
  obtain ⟨rfl, hdata⟩ := Bytes.split?_eq hd
  obtain ⟨rfl, hsum⟩ := Bytes.split?_eq hm
  have hdata : data.length = Bytes.ofBE size := hdata
  have hlt := Bytes.ofBE_lt size
  have hbe := Bytes.be_ofBE size
  rw [hsize, ← hdata] at hlt hbe
  refine ⟨⟨kind, data, sum, hkind, hlt, hsum⟩, ?_, rfl⟩
  rw [RawChunk.bytes, hbe]
  simp only [List.append_assoc]

/-! ## The header -/

/-- What is known after the header. -/
def Header.opening (h : Header) : Preamble := ⟨h, none, none, none, false⟩

theorem readHeader_raw (c : RawChunk) (rest : Bytes) : readHeader (signature ++ (c.bytes ++ rest)) =
    if c.kind = Chunk.header ∧ c.read.sound = true then (Header.ofData? c.data).map fun h => (h.opening, rest) else none := by
  unfold readHeader
  rw [Bytes.split?_of_length _ (show signature.length = 8 from rfl)]
  dsimp only [Option.bind_eq_bind, Option.bind_some]
  rw [next?_raw]
  dsimp only [Option.bind_some]
  simp only [true_and, show c.read.kind = c.kind from rfl, show c.read.data = c.data from rfl]
  split
  · exact Option.map_eq_bind.symm
  · rfl

theorem exists_raw_of_readHeader (h : readHeader bs = some (p, r)) :
    ∃ c : RawChunk, bs = signature ++ (c.bytes ++ r) ∧ c.kind = Chunk.header ∧ c.Sound ∧
      ∃ hd, Header.ofData? c.data = some hd ∧ p = hd.opening := by
  have hfile : ∃ c : RawChunk, ∃ rest, bs = signature ++ (c.bytes ++ rest) := by
    unfold readHeader at h
    simp only [Option.bind_eq_bind, Option.bind_eq_some_iff] at h
    obtain ⟨⟨sign, r₁⟩, hsign, ⟨x, r₂⟩, hx, h⟩ := h
    obtain ⟨rfl, -⟩ := Bytes.split?_eq hsign
    obtain ⟨c, rfl, rfl⟩ := exists_raw hx
    split at h
    · rename_i hs
      exact ⟨c, r₂, congrArg (· ++ _) hs.1⟩
    · cases h
  obtain ⟨c, rest, rfl⟩ := hfile
  rw [readHeader_raw] at h
  split at h
  · rename_i hc
    obtain ⟨hd, hdata, he⟩ := Option.map_eq_some_iff.1 h
    cases he
    exact ⟨c, rfl, hc.1, c.sound_read.1 hc.2, hd, hdata, rfl⟩
  · cases h

/-! ## The chunks up to the image data -/

/-- What the chunks add to what is known. -/
def Preamble.takeAll (p : Preamble) (cs : List RawChunk) : Option Preamble :=
  cs.foldlM (fun p c => p.take c.read) p

theorem readPreamble_raw (p : Preamble) (rest : Bytes) (hne : c.kind ≠ Chunk.imageData) :
    readPreamble p (c.bytes ++ rest) = (p.take c.read).bind fun p' => readPreamble p' rest := by
  rw [readPreamble, kind?_raw, if_neg (by simpa using hne), next?_raw]
  dsimp only
  cases p.take c.read with
  | none => rfl
  | some p' => exact if_pos (length_lt_raw c rest)

theorem readPreamble_raws (rest : Bytes) (h : ∀ c ∈ cs, c.kind ≠ Chunk.imageData) :
    readPreamble p (cs.flatMap RawChunk.bytes ++ rest) = (p.takeAll cs).bind fun p' => readPreamble p' rest := by
  induction cs generalizing p with
  | nil => rfl
  | cons c cs ih =>
    rw [List.flatMap_cons, List.append_assoc, readPreamble_raw p _ (h c (List.mem_cons_self ..)), Preamble.takeAll,
      List.foldlM_cons]
    cases p.take c.read with
    | none => rfl
    | some p' => exact ih fun c hc => h c (List.mem_cons_of_mem _ hc)

theorem exists_raws_of_readPreamble (h : readPreamble p bs = some (q, r)) :
    ∃ cs, bs = cs.flatMap RawChunk.bytes ++ r ∧ (∀ c ∈ cs, c.kind ≠ Chunk.imageData) ∧ p.takeAll cs = some q ∧
      Chunk.kind? r = some Chunk.imageData := by
  fun_induction readPreamble p bs with
  | case1 p bs hkind =>
    cases h
    exact ⟨[], rfl, fun _ h => (List.not_mem_nil h).elim, rfl, hkind⟩
  | case4 p bs hkind x rest hnext p' htake _ ih =>
    obtain ⟨cs, rfl, hcs, hall, hr⟩ := ih h
    obtain ⟨c, rfl, rfl⟩ := exists_raw hnext
    refine ⟨c :: cs, by rw [List.flatMap_cons, List.append_assoc], ?_, ?_, hr⟩
    · rw [kind?_raw] at hkind
      rintro d (_ | ⟨_, hd⟩)
      · exact fun e => hkind (congrArg some e)
      · exact hcs d hd
    · rw [Preamble.takeAll, List.foldlM_cons, htake]
      exact hall
  | _ => cases h

/-! ## The image data -/

theorem readImageData_raw (rest : Bytes) (hc : c.kind = Chunk.imageData) : readImageData (c.bytes ++ rest) =
    if c.read.sound = true then (readImageData rest).map (c.data :: ·) else none := by
  rw [readImageData, kind?_raw, hc]
  dsimp only
  rw [if_pos rfl, next?_raw]
  dsimp only
  simp only [length_lt_raw, and_true]
  rfl

/-! ## The whole file -/

/-- What reading a file comes to, part by part. -/
structure Course where
  opening : Preamble
  /-- The file behind the header. -/
  body : Bytes
  preamble : Preamble
  /-- The file from the image data on. -/
  tail : Bytes
  pieces : List Bytes
  lines : Array UInt8
  passes : List PassRows

/-- The file is read in this course, and the image comes of it. -/
structure Course.Reads (x : Course) (bs : Bytes) (image : Raster) : Prop where
  header : readHeader bs = some (x.opening, x.body)
  chunks : readPreamble x.opening x.body = some (x.preamble, x.tail)
  palette : ¬(x.preamble.header.color = .indexed ∧ x.preamble.palette = none)
  small : x.preamble.loadedBytes ≤ maxLoadedBytes
  imageData : readImageData x.tail = some x.pieces
  expanded : Zlib.expand x.preamble.header.scanlineBytes x.pieces = some x.lines
  restored : readPasses x.preamble.header x.preamble.header.passes x.lines.toList = some x.passes
  raster : Png.raster x.preamble x.passes = image

theorem exists_course {image : Raster} (h : decode bs = some image) : ∃ x : Course, x.Reads bs image := by
  unfold decode at h
  simp only [Option.bind_eq_bind, Option.bind_eq_some_iff] at h
  obtain ⟨⟨p, r₁⟩, hheader, ⟨q, r₂⟩, hchunks, h⟩ := h
  dsimp only at h
  split at h
  · cases h
  · rename_i hpalette
    split at h
    · cases h
    · rename_i hsmall
      simp only [Option.bind_eq_some_iff] at h
      obtain ⟨pieces, hpieces, lines, hlines, passes, hpasses, h⟩ := h
      exact ⟨⟨p, r₁, q, r₂, pieces, lines, passes⟩, hheader, hchunks, hpalette, Nat.le_of_not_lt hsmall, hpieces, hlines,
        hpasses, Option.some.inj h⟩

end IconMaker.Png
