import AtomTimeline.Bytes

/-!
Bits of a byte string, each byte from its lowest bit up.

* `BitReader.next?` takes a bit out.
* `BitReader.align` gives up the bits left of a byte of which some were taken.
-/

namespace AtomTimeline

/-- The bits of a byte, the lowest first. -/
def bitsOfByte (x : UInt8) : List Bool := (List.range 8).map x.toNat.testBit

/-- Bits still to be read. -/
structure BitReader where
  /-- What is left of the byte last begun. -/
  held : List Bool
  rest : Bytes
  deriving DecidableEq, Repr

namespace BitReader

/-- The bits of a byte string. -/
def ofBytes (b : Bytes) : BitReader := ⟨[], b⟩

/-- The number of bits. -/
def size (r : BitReader) : Nat := r.held.length + 8 * r.rest.length

/-- The next bit and the bits behind it. -/
def next? (r : BitReader) : Option (Bool × BitReader) :=
  match r.held with
  | bit :: held => some (bit, ⟨held, r.rest⟩)
  | [] =>
    match r.rest with
    | [] => none
    | x :: rest => some (x.toNat.testBit 0, ⟨(bitsOfByte x).drop 1, rest⟩)

/-- The bits from the next whole byte on. -/
def align (r : BitReader) : BitReader := ⟨[], r.rest⟩

end BitReader

end AtomTimeline
