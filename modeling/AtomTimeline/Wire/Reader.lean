import AtomTimeline.Wire.Field

/-!
The top-level fields of a message, read one by one or all at once.

* `Reader.next` hands out a field at a time; after the end, or a malformed field, it hands out
  nothing more.
* `scan` is the whole run of it: the fields in order and, if a field was malformed, the bytes left
  unread there. `scan_of_read` is its step on a field that can be read.
-/

namespace AtomTimeline

/-- A reader over the fields of a message. -/
structure Reader where
  /-- The bytes not yet consumed. -/
  rest : Bytes
  /-- A field could not be read; nothing more is handed out. -/
  malformed : Bool
  deriving DecidableEq, Repr

namespace Reader

/-- A reader at the start of a message. -/
def ofBytes (b : Bytes) : Reader := ⟨b, false⟩

/-- The next field, if there is one, and the reader behind it. -/
def next (r : Reader) : Option Field × Reader :=
  if r.malformed || r.rest.isEmpty then (none, r)
  else
    match Field.read r.rest with
    | .ok (f, rest) => (some f, ⟨rest, false⟩)
    | .error left => (none, ⟨left, true⟩)

end Reader

/-- The first field of a message, if there is one that can be read. -/
def firstField? (b : Bytes) : Option Field := (Reader.ofBytes b).next.1

/-- All that reading a message to its end finds. -/
structure Scan where
  fields : List Field
  /-- The bytes left unread at a malformed field, if there is one. -/
  unread : Option Bytes
  deriving DecidableEq, Repr

namespace Scan

/-- The message ends in a malformed field. -/
def malformed (s : Scan) : Bool := s.unread.isSome

/-- A field in front of what was found. -/
def cons (f : Field) (s : Scan) : Scan := { s with fields := f :: s.fields }

end Scan

/-- Reads the fields of a message up to its end or a malformed field. -/
def scan (b : Bytes) : Scan :=
  match b with
  | [] => ⟨[], none⟩
  | x :: b =>
    match _h : Field.read (x :: b) with
    | .ok (f, rest) => (scan rest).cons f
    | .error left => ⟨[], some left⟩
termination_by b.length
decreasing_by exact Field.length_lt_of_read _h

@[simp] theorem scan_nil : scan [] = ⟨[], none⟩ := by
  rw [scan]

theorem scan_of_read {b rest : Bytes} {f : Field} (h : Field.read b = .ok (f, rest)) :
    scan b = (scan rest).cons f := by
  cases b with
  | nil => simp [Field.read, Varint.read, Varint.readGroups, Varint.maxLength] at h
  | cons x b =>
    rw [scan]
    split
    · next hr =>
      rw [h] at hr
      cases hr
      rfl
    · next hr =>
      rw [h] at hr
      cases hr

theorem scan_of_read_error {b left : Bytes} (hb : b ≠ []) (h : Field.read b = .error left) :
    scan b = ⟨[], some left⟩ := by
  cases b with
  | nil => exact absurd rfl hb
  | cons x b =>
    rw [scan]
    split
    · next hr =>
      rw [h] at hr
      cases hr
    · next hr =>
      rw [h] at hr
      cases hr
      rfl

/-- Writes fields one after another. -/
def writeFields (fs : List Field) : Bytes := fs.flatMap Field.write

end AtomTimeline
