import AtomTimeline.Wire.Varint

/-!
Fields of a message on the wire: a tag that carries the field's id and wire type, then the value.

* `Field.length_lt_of_read`: reading a field consumes at least one byte.
* `Field.suffix_of_read`, `Field.suffix_of_read_error`: what reading leaves is a tail of the input.
-/

namespace AtomTimeline

/-- How a value lies on the wire. -/
inductive WireType where
  | varint
  | fixed64
  | lengthDelimited
  | fixed32
  deriving DecidableEq, Repr

namespace WireType

/-- The number of a wire type in a tag. -/
def code : WireType → Nat
  | varint => 0
  | fixed64 => 1
  | lengthDelimited => 2
  | fixed32 => 5

/-- The wire type of a number. Groups (3 and 4) are not read, and 6 and 7 are not assigned. -/
def ofCode? : Nat → Option WireType
  | 0 => some varint
  | 1 => some fixed64
  | 2 => some lengthDelimited
  | 5 => some fixed32
  | _ => none

/-- The name of a wire type in messages. -/
def name : WireType → String
  | varint => "Varint"
  | fixed64 => "Fixed64"
  | lengthDelimited => "LengthDelimited"
  | fixed32 => "Fixed32"

theorem ofCode?_code (w : WireType) : ofCode? w.code = some w := by
  cases w <;> rfl

end WireType

/-- The value of one field. -/
inductive FieldValue where
  | varint (v : UInt64)
  | fixed64 (v : UInt64)
  | lengthDelimited (bytes : Bytes)
  | fixed32 (v : UInt32)
  deriving DecidableEq, Repr

/-- One field of a message. -/
structure Field where
  id : UInt32
  value : FieldValue
  deriving DecidableEq, Repr

namespace FieldValue

/-- The wire type a value lies in. -/
def wireType : FieldValue → WireType
  | varint _ => .varint
  | fixed64 _ => .fixed64
  | lengthDelimited _ => .lengthDelimited
  | fixed32 _ => .fixed32

/-- The bytes of a length-delimited value; none for any other. -/
def bytes : FieldValue → Bytes
  | lengthDelimited b => b
  | _ => []

/-- The value as a 64-bit word; zero for a length-delimited one. -/
def word : FieldValue → UInt64
  | varint v | fixed64 v => v
  | fixed32 v => v.toUInt64
  | lengthDelimited _ => 0

/-- The bits of the single-precision real a 32-bit value holds; zero for any other. -/
def singleBits : FieldValue → UInt32
  | fixed32 v => v
  | _ => 0

/-- The bits of the double-precision real a 64-bit value holds; zero for any other. -/
def doubleBits : FieldValue → UInt64
  | fixed64 v => v
  | _ => 0

/-- Reads a value of the given wire type. A fault leaves unread what follows the last part that
could be read. -/
def read (kind : WireType) (b : Bytes) : Except Bytes (FieldValue × Bytes) :=
  match kind with
  | .varint =>
    match Varint.read b with
    | .ok (v, rest) => .ok (.varint v, rest)
    | .error (_, left) => .error left
  | .fixed64 =>
    match Bytes.splitFront? 8 b with
    | some (raw, rest) => .ok (.fixed64 (UInt64.ofNat (Bytes.toNatLE raw)), rest)
    | none => .error b
  | .lengthDelimited =>
    match Varint.read b with
    | .error (_, left) => .error left
    | .ok (length, rest) =>
      match Bytes.splitFront? length.toNat rest with
      | some (content, after) => .ok (.lengthDelimited content, after)
      | none => .error rest
  | .fixed32 =>
    match Bytes.splitFront? 4 b with
    | some (raw, rest) => .ok (.fixed32 (UInt32.ofNat (Bytes.toNatLE raw)), rest)
    | none => .error b

/-- Writes a value without its tag. -/
def write : FieldValue → Bytes
  | varint v => Varint.write v
  | fixed64 v => Bytes.ofNatLE 8 v.toNat
  | lengthDelimited b => Varint.write (UInt64.ofNat b.length) ++ b
  | fixed32 v => Bytes.ofNatLE 4 v.toNat

end FieldValue

/-- Writes the tag of a field. -/
def writeTag (id : UInt32) (kind : WireType) : Bytes :=
  Varint.write (UInt64.ofNat (8 * id.toNat + kind.code))

namespace Field

/-- Reads one field: its id is at least 1 and below 2^32, and its wire type is one of the four.
A fault comes with the bytes left unread. -/
def read (b : Bytes) : Except Bytes (Field × Bytes) :=
  match Varint.read b with
  | .error (_, left) => .error left
  | .ok (tag, rest) =>
    let id := tag.toNat / 8
    if 0 < id ∧ id < UInt32.size then
      match WireType.ofCode? (tag.toNat % 8) with
      | none => .error rest
      | some kind =>
        match FieldValue.read kind rest with
        | .ok (value, after) => .ok (⟨UInt32.ofNat id, value⟩, after)
        | .error left => .error left
    else .error rest

/-- Writes one field. -/
def write (f : Field) : Bytes := writeTag f.id f.value.wireType ++ f.value.write

end Field

/-! ### What reading leaves -/

theorem FieldValue.suffix_of_read {kind : WireType} {b rest : Bytes} {v : FieldValue}
    (h : FieldValue.read kind b = .ok (v, rest)) : rest <:+ b := by
  cases kind with
  | varint =>
    simp only [FieldValue.read] at h
    split at h
    · next hv => cases h; exact Varint.suffix_of_read hv
    · cases h
  | fixed64 =>
    simp only [FieldValue.read] at h
    split at h
    · next hs =>
      cases h
      exact ⟨_, (Bytes.splitFront?_eq_some_iff.1 hs).1.symm⟩
    · cases h
  | lengthDelimited =>
    simp only [FieldValue.read] at h
    split at h
    · cases h
    · next hv =>
      split at h
      · next hs =>
        cases h
        exact List.IsSuffix.trans ⟨_, (Bytes.splitFront?_eq_some_iff.1 hs).1.symm⟩
          (Varint.suffix_of_read hv)
      · cases h
  | fixed32 =>
    simp only [FieldValue.read] at h
    split at h
    · next hs =>
      cases h
      exact ⟨_, (Bytes.splitFront?_eq_some_iff.1 hs).1.symm⟩
    · cases h

theorem FieldValue.suffix_of_read_error {kind : WireType} {b left : Bytes}
    (h : FieldValue.read kind b = .error left) : left <:+ b := by
  cases kind with
  | varint =>
    simp only [FieldValue.read] at h
    split at h
    · cases h
    · next hv => cases h; exact Varint.suffix_of_read_error hv
  | fixed64 =>
    simp only [FieldValue.read] at h
    split at h
    · cases h
    · cases h; exact List.suffix_refl _
  | lengthDelimited =>
    simp only [FieldValue.read] at h
    split at h
    · next hv => cases h; exact Varint.suffix_of_read_error hv
    · next hv =>
      split at h
      · cases h
      · cases h; exact Varint.suffix_of_read hv
  | fixed32 =>
    simp only [FieldValue.read] at h
    split at h
    · cases h
    · cases h; exact List.suffix_refl _

theorem Field.suffix_of_read_aux {b rest : Bytes} {f : Field}
    (h : Field.read b = .ok (f, rest)) : rest <:+ b ∧ rest.length < b.length := by
  simp only [Field.read] at h
  split at h
  · cases h
  · next hv =>
    split at h
    · split at h
      · cases h
      · split at h
        · next hr =>
          cases h
          have shorter := Varint.length_lt_of_read hv
          have tail := FieldValue.suffix_of_read hr
          exact ⟨tail.trans (Varint.suffix_of_read hv), by have := tail.length_le; omega⟩
        · cases h
    · cases h

theorem Field.suffix_of_read {b rest : Bytes} {f : Field}
    (h : Field.read b = .ok (f, rest)) : rest <:+ b :=
  (Field.suffix_of_read_aux h).1

theorem Field.length_lt_of_read {b rest : Bytes} {f : Field}
    (h : Field.read b = .ok (f, rest)) : rest.length < b.length :=
  (Field.suffix_of_read_aux h).2

theorem Field.suffix_of_read_error {b left : Bytes}
    (h : Field.read b = .error left) : left <:+ b := by
  simp only [Field.read] at h
  split at h
  · next hv => cases h; exact Varint.suffix_of_read_error hv
  · next hv =>
    split at h
    · split at h
      · cases h; exact Varint.suffix_of_read hv
      · split at h
        · cases h
        · next hr =>
          cases h
          exact (FieldValue.suffix_of_read_error hr).trans (Varint.suffix_of_read hv)
    · cases h; exact Varint.suffix_of_read hv

end AtomTimeline
