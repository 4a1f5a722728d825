import AtomTimeline.Wire.Varint

/-!
Sources of bytes that are read from front to back, and that may break off with a fault.

* `Source.readVarint`, `Source.readExactly` and `Source.skip` each leave a shorter source or one of
  the same length (`Source.length_lt_of_readVarint`, `Source.length_le_of_skip`).
-/

namespace AtomTimeline

/-- Why a source breaks off before its data is complete. -/
inductive SourceFault where
  /-- A header or trailer of compressed data that ends too early. -/
  | cutOff
  /-- Compressed data that ends before its last block does. -/
  | unfinishedData
  /-- No header of compressed data. -/
  | badHeader
  /-- A text in the header of compressed data that does not end in time. -/
  | longHeader
  /-- Compressed data that cannot be expanded. -/
  | corruptData
  /-- Expanded data, or a header, that does not match its checksum. -/
  | wrongChecksum
  /-- A directory in the place of a file. -/
  | directory
  deriving DecidableEq, Repr

/-- The text of a fault. -/
def SourceFault.message : SourceFault → String
  | .cutOff => "unexpected end of file"
  | .unfinishedData => "incomplete deflate stream"
  | .badHeader => "invalid gzip header"
  | .longHeader => "gzip header field too long"
  | .corruptData => "corrupt deflate stream"
  | .wrongChecksum => "corrupt gzip stream does not have a matching checksum"
  | .directory => "Is a directory (os error 21)"

/-- Why the next part of a trace cannot be read. -/
inductive ReadError where
  /-- The data ends within a varint or a number. -/
  | endOfInput
  | varintTooLarge
  | unknownWireType (code : Nat)
  | truncatedField (expected got : Nat)
  | truncatedPacket (expected got : Nat)
  /-- The source breaks off. -/
  | source (fault : SourceFault)
  deriving DecidableEq, Repr

/-- The text of an error. -/
def ReadError.message : ReadError → String
  | .endOfInput => "failed to fill whole buffer"
  | .varintTooLarge => "Varint too large"
  | .unknownWireType code => s!"Unknown wire type: {code}"
  | .truncatedField expected got => s!"Truncated field, expected {expected} bytes, got {got}"
  | .truncatedPacket expected got =>
    s!"Truncated trace packet, expected {expected} bytes, got {got}"
  | .source fault => fault.message

/-- Bytes to be read from front to back. -/
structure Source where
  bytes : Bytes
  /-- What shows behind the last byte instead of a clean end. -/
  fault : Option SourceFault
  deriving DecidableEq, Repr

namespace Source

/-- A source that ends cleanly behind its bytes. -/
def ofBytes (b : Bytes) : Source := ⟨b, none⟩

/-- The error of reading on where the data has run out: the source's fault, or else the given
one. -/
def runOut (s : Source) (otherwise : ReadError) : ReadError :=
  match s.fault with
  | some fault => .source fault
  | none => otherwise

/-- Reads a varint. -/
def readVarint (s : Source) : Except ReadError (UInt64 × Source) :=
  match Varint.read s.bytes with
  | .ok (v, rest) => .ok (v, { s with bytes := rest })
  | .error (.cutOff, _) => .error (s.runOut .endOfInput)
  | .error (.tooLong, _) => .error .varintTooLarge

/-- Reads `n` bytes; `short` is the error if the source ends cleanly before that, given the number
of bytes there are. -/
def readExactly (n : Nat) (short : Nat → ReadError) (s : Source) :
    Except ReadError (Bytes × Source) :=
  match Bytes.splitFront? n s.bytes with
  | some (front, rest) => .ok (front, { s with bytes := rest })
  | none => .error (s.runOut (short s.bytes.length))

/-- Skips the value of a field whose tag has the given wire type. -/
def skip (wireType : Nat) (s : Source) : Except ReadError Source :=
  match wireType with
  | 0 =>
    match s.readVarint with
    | .ok (_, rest) => .ok rest
    | .error e => .error e
  | 1 =>
    match s.readExactly 8 (fun _ => .endOfInput) with
    | .ok (_, rest) => .ok rest
    | .error e => .error e
  | 2 =>
    match s.readVarint with
    | .error e => .error e
    | .ok (length, rest) =>
      match rest.readExactly length.toNat (.truncatedField length.toNat) with
      | .ok (_, after) => .ok after
      | .error e => .error e
  | 5 =>
    match s.readExactly 4 (fun _ => .endOfInput) with
    | .ok (_, rest) => .ok rest
    | .error e => .error e
  | code => .error (.unknownWireType code)

/-! ### What reading leaves -/

theorem length_lt_of_readVarint {s rest : Source} {v : UInt64}
    (h : s.readVarint = .ok (v, rest)) : rest.bytes.length < s.bytes.length := by
  simp only [readVarint] at h
  split at h
  · next hv => cases h; exact Varint.length_lt_of_read hv
  · cases h
  · cases h

theorem length_le_of_readExactly {n : Nat} {short : Nat → ReadError} {s rest : Source}
    {front : Bytes} (h : s.readExactly n short = .ok (front, rest)) :
    rest.bytes.length ≤ s.bytes.length := by
  simp only [readExactly] at h
  split at h
  · next hs =>
    cases h
    have := (Bytes.splitFront?_eq_some_iff.1 hs).1
    rw [this]
    simp
  · cases h

theorem length_le_of_skip {wireType : Nat} {s rest : Source}
    (h : s.skip wireType = .ok rest) : rest.bytes.length ≤ s.bytes.length := by
  unfold skip at h
  split at h
  · split at h
    · next hv => cases h; exact Nat.le_of_lt (length_lt_of_readVarint hv)
    · cases h
  · split at h
    · next hr => cases h; exact length_le_of_readExactly hr
    · cases h
  · split at h
    · cases h
    · next hv =>
      split at h
      · next hr =>
        cases h
        exact Nat.le_trans (length_le_of_readExactly hr)
          (Nat.le_of_lt (length_lt_of_readVarint hv))
      · cases h
  · split at h
    · next hr => cases h; exact length_le_of_readExactly hr
    · cases h
  · cases h

end Source

end AtomTimeline
