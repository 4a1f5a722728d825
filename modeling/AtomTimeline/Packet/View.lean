import AtomTimeline.Wire.Reader

/-!
The parts of a trace packet that an import looks at. All else is known by its field id alone.

* `PacketView.decode` takes the last timestamp, sequence id and atom batch; any mark of a cleared
  incremental state counts.
* `PacketView.mem_fieldIds_decode`: a field id is listed exactly when some field has it.
-/

namespace AtomTimeline

/-! ### Field numbers of a trace packet -/

namespace PacketField

def timestamp : UInt32 := 8

def sequenceId : UInt32 := 10

def sequenceFlags : UInt32 := 13

def incrementalStateCleared : UInt32 := 41

def statsdAtom : UInt32 := 84

end PacketField

namespace Field

/-- The varint a field holds, if it has the given id. -/
def varint? (id : UInt32) (f : Field) : Option UInt64 :=
  match f.value with
  | .varint v => if f.id = id then some v else none
  | _ => none

/-- The bytes a field holds, if it has the given id. -/
def bytes? (id : UInt32) (f : Field) : Option Bytes :=
  match f.value with
  | .lengthDelimited b => if f.id = id then some b else none
  | _ => none

/-- The field says that the sequence's incremental state was cleared, by the flag bit or by the
older mark. -/
def marksCleared (f : Field) : Bool :=
  (f.varint? PacketField.sequenceFlags).any (fun flags => flags.toNat % 2 = 1) ||
    (f.varint? PacketField.incrementalStateCleared).any (fun mark => mark ≠ 0)

end Field

/-- The parts of a trace packet that an import looks at. -/
structure PacketView where
  timestamp : Option UInt64
  sequenceId : Option UInt32
  /-- The packet marks its sequence's incremental state as cleared. -/
  cleared : Bool
  /-- The batch of atoms. -/
  statsd : Option Bytes
  /-- The ids of the top-level fields, each once, in order of first appearance. -/
  fieldIds : List UInt32
  malformed : Bool
  deriving DecidableEq, Repr

namespace PacketView

/-- The view of a packet with the given fields. -/
def ofScan (s : Scan) : PacketView where
  timestamp := (s.fields.filterMap (Field.varint? PacketField.timestamp)).getLast?
  sequenceId := ((s.fields.filterMap (Field.varint? PacketField.sequenceId)).getLast?).map
    UInt64.toUInt32
  cleared := s.fields.any Field.marksCleared
  statsd := (s.fields.filterMap (Field.bytes? PacketField.statsdAtom)).getLast?
  fieldIds := (s.fields.map Field.id).eraseDups
  malformed := s.malformed

/-- The view of a serialized packet. -/
def decode (b : Bytes) : PacketView := ofScan (scan b)

/-- Some top-level field has the id. -/
def hasField (p : PacketView) (id : UInt32) : Bool := p.fieldIds.contains id

theorem mem_fieldIds_decode {b : Bytes} {id : UInt32} :
    id ∈ (decode b).fieldIds ↔ ∃ f ∈ (scan b).fields, f.id = id := by
  simp [decode, ofScan, List.mem_eraseDups]

end PacketView

end AtomTimeline
