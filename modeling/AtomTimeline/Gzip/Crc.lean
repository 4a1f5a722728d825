import AtomTimeline.Bytes

/-!
The checksum of compressed data: the remainder of a byte string, read as a polynomial over two
elements, modulo a fixed polynomial of degree 32.

* `crc32` is a left fold over the bytes, so that a checksum can be carried on.
-/

namespace AtomTimeline

/-- The modulus without its leading term, the lowest power in the highest bit. -/
def crcPolynomial : UInt32 := 0xEDB88320

/-- One step of the division. -/
def crcStep (r : UInt32) : UInt32 :=
  if r.toNat % 2 = 1 then (r >>> 1) ^^^ crcPolynomial else r >>> 1

/-- The remainder with one more byte taken in. -/
def crcByte (r : UInt32) (x : UInt8) : UInt32 := Nat.repeat crcStep 8 (r ^^^ x.toUInt32)

/-- The remainder with more bytes taken in. -/
def crcUpdate (r : UInt32) (b : Bytes) : UInt32 := b.foldl crcByte r

/-- The checksum of a byte string. -/
def crc32 (b : Bytes) : UInt32 := crcUpdate 0xFFFFFFFF b ^^^ 0xFFFFFFFF

end AtomTimeline
