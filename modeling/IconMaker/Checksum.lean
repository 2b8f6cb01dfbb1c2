import IconMaker.Bytes

/-
  IconMaker.Checksum — the cyclic redundancy check of PNG chunks and the Adler sum of zlib
  streams, both of 32 bits.
-/

namespace IconMaker.Checksum

/-- One bit of division by the reflected polynomial. -/
def crcBit (c : UInt32) : UInt32 :=
  if c &&& 1 = 1 then (c >>> 1) ^^^ 0xedb88320 else c >>> 1

def crcByte (c : UInt32) (b : UInt8) : UInt32 :=
  crcBit (crcBit (crcBit (crcBit (crcBit (crcBit (crcBit (crcBit (c ^^^ b.toUInt32))))))))

def crc (bs : Bytes) : UInt32 := bs.foldl crcByte 0xffffffff ^^^ 0xffffffff

/-- The sum of the bytes and the sum of its intermediate values, modulo 65521. -/
def adlerSums (bs : Bytes) : Nat × Nat :=
  bs.foldl (fun s b => ((s.1 + b.toNat) % 65521, (s.2 + s.1 + b.toNat) % 65521)) (1, 0)

def adler (bs : Bytes) : Nat := (adlerSums bs).2 * 65536 + (adlerSums bs).1

end IconMaker.Checksum
