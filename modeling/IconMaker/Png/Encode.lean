import IconMaker.Png.Decode

/-
  IconMaker.Png.Encode — PNG files of rasters with colour and alpha of 8 bits.

  The format leaves it to a writer how it filters and compresses. So what needs PNG files takes a
  `Writer`, and says nothing of its choices. `encode` is the plainest one: scanlines are not
  filtered and the image data is stored, in one chunk.
-/

namespace IconMaker.Png

/-- The scanlines of a raster of bytes, each behind a filter byte. -/
def scanlines (rowBytes : Nat) : Nat → Bytes → Bytes
  | 0, _ => []
  | n + 1, bs => Predictor.zero.code :: (bs.take rowBytes ++ scanlines rowBytes n (bs.drop rowBytes))

def encode (r : Raster) : Bytes :=
  let h : Header := ⟨r.width, r.height, 8, .rgba, false⟩
  signature ++ Chunk.write Chunk.header h.data
    ++ Chunk.write Chunk.imageData (Zlib.stored (scanlines (4 * r.width) r.height r.bytes))
    ++ Chunk.write Chunk.imageEnd []

/-- What makes the PNG files that go into an icon. -/
class Writer where
  write : Raster → Bytes

instance (priority := low) storing : Writer := ⟨encode⟩

end IconMaker.Png
