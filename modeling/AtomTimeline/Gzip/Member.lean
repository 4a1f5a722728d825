import AtomTimeline.Gzip.Crc
import AtomTimeline.Gzip.Runs

/-!
Compressed files: a header, compressed data, and a trailer with the checksum and the length of what
was compressed. Only the first such member of a file is read.

* `Source.ofGzip` is the source of the expanded bytes. Data that is cut off, or does not match its
  trailer, is handed out as far as it goes, and the fault shows behind it. Of data that is corrupt,
  the runs before the one in which that shows are handed out.
-/

namespace AtomTimeline

namespace Gzip

/-! ### Flags of a header -/

def hasCheck (flags : Nat) : Bool := flags.testBit 1

def hasExtra (flags : Nat) : Bool := flags.testBit 2

def hasName (flags : Nat) : Bool := flags.testBit 3

def hasComment (flags : Nat) : Bool := flags.testBit 4

/-- Flags that have no meaning; a header that sets one cannot be read. -/
def hasReserved (flags : Nat) : Bool := flags.testBit 5 || flags.testBit 6 || flags.testBit 7

/-! ### Headers -/

/-- The most bytes a text in a header may take. -/
def maxTextLength : Nat := 65535

/-- Skips a text up to the zero byte that ends it, of at most `limit` bytes. -/
def skipText : (limit : Nat) → Bytes → Except SourceFault Bytes
  | _, [] => .error .cutOff
  | limit, x :: b =>
    if x = 0 then .ok b
    else
      match limit with
      | 0 => .error .longHeader
      | limit + 1 => skipText limit b

/-- Skips a text if it is there. -/
def skipTextIf (present : Bool) (b : Bytes) : Except SourceFault Bytes :=
  if present then skipText maxTextLength b else .ok b

/-- Takes bytes off the front. -/
def take (n : Nat) (b : Bytes) : Except SourceFault (Bytes × Bytes) :=
  match Bytes.splitFront? n b with
  | some parts => .ok parts
  | none => .error .cutOff

/-- Skips the extra field if it is there. -/
def skipExtra (present : Bool) (b : Bytes) : Except SourceFault Bytes :=
  if present then do
    let (length, rest) ← take 2 b
    let (_, after) ← take (Bytes.toNatLE length) rest
    pure after
  else .ok b

/-- Compares a header with its check, which is the low half of its checksum. -/
def verifyCheck (present : Bool) (header b : Bytes) : Except SourceFault Bytes :=
  if present then do
    let (check, rest) ← take 2 b
    if Bytes.toNatLE check = (crc32 header).toUInt16.toNat then pure rest
    else .error .wrongChecksum
  else .ok b

/-- Reads a header; what follows it is left. -/
def readHeader (b : Bytes) : Except SourceFault Bytes := do
  let (start, rest) ← take 10 b
  match start with
  | 0x1F :: 0x8B :: 8 :: flags :: _ =>
    let flags := flags.toNat
    if hasReserved flags then .error .badHeader
    else
      let rest ← skipExtra (hasExtra flags) rest
      let rest ← skipTextIf (hasName flags) rest
      let rest ← skipTextIf (hasComment flags) rest
      verifyCheck (hasCheck flags) (b.take (b.length - rest.length)) rest
  | _ => .error .badHeader

/-! ### Trailers -/

/-- The trailer of what was compressed. -/
def trailer (b : Bytes) : Bytes :=
  Bytes.ofNatLE 4 (crc32 b).toNat ++ Bytes.ofNatLE 4 b.length

/-- What is wrong with the bytes behind the compressed data, if anything. -/
def trailerFault (output rest : Bytes) : Option SourceFault :=
  match Bytes.splitFront? 8 rest with
  | none => some .cutOff
  | some (found, _) => if found = trailer output then none else some .wrongChecksum

end Gzip

/-- The expanded bytes of a compressed file. -/
def Source.ofGzip (b : Bytes) : Source :=
  match Gzip.readHeader b with
  | .error fault => ⟨[], some fault⟩
  | .ok data =>
    let expanded := inflate data
    match expanded.rest with
    | .ok rest => ⟨expanded.output, Gzip.trailerFault expanded.output rest⟩
    | .error .cutOff => ⟨expanded.output, some .unfinishedData⟩
    | .error .corrupt =>
      let start := b.length - data.length
      ⟨expanded.output.take (Gzip.handedOut start data expanded.output), some .corruptData⟩

end AtomTimeline
