import IconMaker.Proofs.Png.Loading
import IconMaker.Conversion

/-
  IconMaker.Proofs.Png.Encodings — the image is that of the picture, whatever the encoding.

  `every_encoding_loads`: a picture loads as the raster it stands for, whether it is
  interlaced or not, however its lines are filtered and padded, with any stream of stored,
  fixed and dynamic blocks that expands to them, cut into pieces anywhere. So two files that
  say the same picture load as the same image.

  The streams are those of `Rules.reader`. The format allows two things more, and both are
  refused (`some_legal_streams_are_refused`): 31 or 32 distance lengths, and a literal code
  whose only codeword is the end of the block.
-/

namespace IconMaker.Png

open Deflate (Rules Part Preface)

theorem every_encoding_loads {p : Picture} (hp : p.Legal) (hsize : p.loadedBytes ≤ 512 * 1024 * 1024) (path : Path) :
    (∀ e : Encoding, e.Legal .reader p → loadImage path (.ok (e.file p)) = .ok p.loaded) ∧
      ∀ e e' : Encoding, e.Legal .reader p → e'.Legal .reader p →
        loadImage path (.ok (e.file p)) = loadImage path (.ok (e'.file p)) := by
  have hload : ∀ e : Encoding, e.Legal .reader p → loadImage path (.ok (e.file p)) = .ok p.loaded := by
    intro e he
    unfold loadImage
    dsimp only
    rw [decode_file hp he hsize]
  refine ⟨hload, fun e e' he he' => ?_⟩
  rw [hload e he, hload e' he']

/-! ## One black pixel in three encodings -/

def blackPixel : Picture := ⟨1, 1, 8, .grey, fun _ _ _ => 0, [], none⟩

theorem blackPixel_legal : blackPixel.Legal where
  width := by decide
  height := by decide
  depth := by decide
  samples := fun _ _ _ _ _ _ => Nat.two_pow_pos 8
  palette := fun h => by cases h
  clear := fun t h => by cases h

theorem blackHeader : Zlib.LegalHeader 0x78 0x01 := ⟨by decide, by decide, by decide, by decide⟩

theorem blackLine : blackPixel.Packs [0] 0 [0] := ⟨by decide, by decide⟩

/-- The pixel in one line without a filter, compressed as `body`. -/
def blackPixelAs (body : Bytes) : Encoding := ⟨false, [[⟨0, [0]⟩]], [0x78 :: 0x01 :: (body ++ [0, 2, 0, 1])]⟩

theorem blackPixelAs_pieces {body : Bytes} (hlen : body.length < 100) :
    ∀ b ∈ (blackPixelAs body).pieces, b.length < 2 ^ 31 := by
  intro b hb
  rw [List.mem_singleton.1 hb]
  simp only [List.length_cons, List.length_append, List.length_nil]
  omega

theorem blackPixelAs_legal {rules : Rules} {body : Bytes} (h : Deflate.Expands rules body [0, 0])
    (hlen : body.length < 100) : (blackPixelAs body).Legal rules blackPixel where
  passes := .cons (.cons ⟨by decide, blackLine⟩ .nil) .nil
  stream := by
    have hsum : Bytes.be 4 (Checksum.adler [0, 0]) = [0, 2, 0, 1] := by decide
    refine ⟨0x78, 0x01, body, blackHeader, h, ?_⟩
    show [0x78 :: 0x01 :: (body ++ [0, 2, 0, 1])].flatten = _
    rw [show (blackPixelAs body).data blackPixel = [0, 0] from rfl, hsum, List.flatten_singleton]
  pieces := blackPixelAs_pieces hlen

/-- Codes for the literal 0 and the end of the block, and `n` lengths of distances that do not
    occur. -/
def sparsePreface (n : Nat) : Preface where
  literals := 1 :: (List.replicate 255 0 ++ [1])
  distances := List.replicate n 0
  code := (List.range 19).map fun sym => if sym = 1 ∨ sym = 18 then 1 else 0
  sent := 18
  runs := [.once 1, .manyZeros 138, .manyZeros 117, .once 1, .manyZeros n]

def thirtyDistances : Bytes := [5, 221, 129, 0, 0, 0, 0, 0, 16, 255, 213, 78, 8]

theorem thirtyDistances_expands : Deflate.Expands .reader thirtyDistances [0, 0] :=
  ⟨[.dynamic (sparsePreface 30) [.literal 0, .literal 0]], [false, false, false, false], by decide, by decide +kernel,
    rfl, by decide, by decide +kernel⟩

/-- With thirty distance lengths the pixel loads. -/
theorem thirty_distance_lengths_load :
    (blackPixel.Legal ∧ blackPixel.loadedBytes ≤ 512 * 1024 * 1024 ∧
      (blackPixelAs thirtyDistances).Legal .reader blackPixel) ∧
    loadImage [] (.ok ((blackPixelAs thirtyDistances).file blackPixel)) = .ok blackPixel.loaded :=
  have hlegal := blackPixelAs_legal thirtyDistances_expands (by decide)
  ⟨⟨blackPixel_legal, by decide, hlegal⟩,
    (every_encoding_loads blackPixel_legal (by decide) []).1 _ hlegal⟩

/-! ## Two legal streams that are refused -/

/-- The pixel as a stream whose first block has a preface that the reader does not take. -/
theorem blackPixelAs_refused {preface : Preface} {items : List Deflate.Item} {parts : List Part} {body : Bytes}
    {padding : List Bool} (hp : preface.Legal .format) (hno : ¬preface.Legal .reader)
    (hbits : body.flatMap Deflate.bitsOf = Deflate.partBits (.dynamic preface items :: parts) ++ padding)
    (hlen : body.length < 100) :
    loadImage [] (.ok ((blackPixelAs body).file blackPixel)) = .error (.undecodable []) := by
  have hdecode : decode ((blackPixelAs body).file blackPixel) = none := by
    rw [decode_container blackPixel_legal (List.cons_ne_nil _ _) (blackPixelAs_pieces hlen) (by decide)]
    have hexpand := Zlib.expand_refuses ((blackPixelAs body).header blackPixel).scanlineBytes blackHeader
      (show [(0 : UInt8), 2, 0, 1].length = 4 from rfl) hp hno hbits
    rw [show (blackPixelAs body).pieces = [0x78 :: 0x01 :: (body ++ [0, 2, 0, 1])] from rfl, hexpand]
    rfl
  unfold loadImage
  dsimp only
  rw [hdecode]

def manyDistances : Bytes := [5, 223, 129, 0, 0, 0, 0, 0, 16, 255, 213, 86, 8]

def manyDistancesParts : List Part := [.dynamic (sparsePreface 32) [.literal 0, .literal 0]]

/-- Codes for a block with nothing but its end, which takes one bit. -/
def emptyPreface : Preface where
  literals := List.replicate 256 0 ++ [1]
  distances := [0]
  code := (List.range 19).map fun sym => if sym = 18 then 1 else if sym = 0 ∨ sym = 1 then 2 else 0
  sent := 18
  runs := [.manyZeros 138, .manyZeros 118, .once 1, .once 0]

def loneLiteral : Bytes := [4, 192, 129, 8, 0, 0, 0, 0, 32, 127, 235, 51, 6, 6, 0]

def loneLiteralParts : List Part := [.dynamic emptyPreface [], .fixed [.literal 0, .literal 0]]

theorem manyDistances_bits :
    manyDistances.flatMap Deflate.bitsOf = Deflate.partBits manyDistancesParts ++ [false, false, false, false] := by
  decide +kernel

theorem loneLiteral_bits :
    loneLiteral.flatMap Deflate.bitsOf = Deflate.partBits loneLiteralParts ++ [false, false] := by
  decide +kernel

/-- The reader has no use for distances 31 and 32, which no stream can contain, and takes a
    single codeword for a code of distances only. -/
theorem some_legal_streams_are_refused :
    blackPixel.Legal ∧ blackPixel.loadedBytes ≤ 512 * 1024 * 1024 ∧
      ((blackPixelAs manyDistances).Legal .format blackPixel ∧
        loadImage [] (.ok ((blackPixelAs manyDistances).file blackPixel)) = .error (.undecodable [])) ∧
      (blackPixelAs loneLiteral).Legal .format blackPixel ∧
        loadImage [] (.ok ((blackPixelAs loneLiteral).file blackPixel)) = .error (.undecodable []) := by
  have hmany : Deflate.Expands .format manyDistances [0, 0] :=
    ⟨manyDistancesParts, _, by decide, by decide +kernel, rfl, by decide, manyDistances_bits⟩
  have hlone : Deflate.Expands .format loneLiteral [0, 0] :=
    ⟨loneLiteralParts, _, by decide, by decide +kernel, rfl, by decide, loneLiteral_bits⟩
  exact ⟨blackPixel_legal, by decide,
    ⟨blackPixelAs_legal hmany (by decide),
      blackPixelAs_refused (by decide +kernel) (by decide +kernel) manyDistances_bits (by decide)⟩,
    blackPixelAs_legal hlone (by decide),
    blackPixelAs_refused (by decide +kernel) (by decide +kernel) loneLiteral_bits (by decide)⟩

end IconMaker.Png
