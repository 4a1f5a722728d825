import AtomTimeline.Packet.View

/-!
Batches of atoms: payloads, and timestamps that belong to them by position.

* `Batch.decode` reads a batch; a packed run of timestamps that cannot be read ends it.
* `Batch.encode` writes one, timestamps unpacked; `singletonPacket` is a packet that holds one atom
  and carries its timestamp.
* `Batch.resolved` gives each atom its timestamp.
-/

namespace AtomTimeline

/-! ### Field numbers of a batch -/

namespace BatchField

def atom : UInt32 := 1

def timestamps : UInt32 := 2

end BatchField

/-- A batch of atoms. -/
structure Batch where
  atoms : List Bytes
  timestamps : List Int64
  malformed : Bool
  deriving DecidableEq, Repr

/-- What one field adds to a batch. -/
inductive BatchPart where
  | atom (payload : Bytes)
  | timestamps (values : List Int64)
  /-- A packed run of timestamps that cannot be read. -/
  | badRun
  /-- Nothing a batch knows. -/
  | other
  deriving DecidableEq, Repr

/-- What a field adds to a batch. -/
def BatchPart.ofField (f : Field) : BatchPart :=
  match f.value with
  | .lengthDelimited b =>
    if f.id = BatchField.atom then .atom b
    else if f.id = BatchField.timestamps then
      match Varint.split b with
      | .ok vs => .timestamps (vs.map UInt64.toInt64)
      | .error _ => .badRun
    else .other
  | .varint v => if f.id = BatchField.timestamps then .timestamps [v.toInt64] else .other
  | _ => .other

namespace Batch

/-- A part in front of a batch. A run that cannot be read hides all that follows it. -/
def cons : BatchPart → Batch → Batch
  | .atom payload, batch => { batch with atoms := payload :: batch.atoms }
  | .timestamps values, batch => { batch with timestamps := values ++ batch.timestamps }
  | .badRun, _ => ⟨[], [], true⟩
  | .other, batch => batch

/-- The batch with the given fields. -/
def ofScan (s : Scan) : Batch :=
  (s.fields.map BatchPart.ofField).foldr cons ⟨[], [], s.malformed⟩

/-- Reads a batch. -/
def decode (b : Bytes) : Batch := ofScan (scan b)

/-- Writes a batch with the given atoms and timestamps. -/
def encode (atoms : List Bytes) (timestamps : List Int64) : Bytes :=
  writeFields
    (atoms.map (fun payload => ⟨BatchField.atom, .lengthDelimited payload⟩) ++
      timestamps.map (fun ts => ⟨BatchField.timestamps, .varint ts.toUInt64⟩))

/-- The atoms with their timestamps: the one at the same position, or `missing` for an atom that
has none. -/
def stamp (missing : Int64) : List Bytes → List Int64 → List (Int64 × Bytes)
  | [], _ => []
  | payload :: atoms, [] => (missing, payload) :: stamp missing atoms []
  | payload :: atoms, ts :: rest => (ts, payload) :: stamp missing atoms rest

/-- The atoms of a batch with their timestamps. -/
def resolved (batch : Batch) (missing : Int64) : List (Int64 × Bytes) :=
  stamp missing batch.atoms batch.timestamps

/-- The number of atoms that have no timestamp of their own. -/
def missingTimestamps (batch : Batch) : Nat := batch.atoms.length - batch.timestamps.length

end Batch

/-- The packet that holds one atom and carries its timestamp. -/
def singletonPacket (ts : Int64) (payload : Bytes) : Bytes :=
  writeFields
    [⟨PacketField.timestamp, .varint ts.toUInt64⟩,
      ⟨PacketField.statsdAtom, .lengthDelimited (Batch.encode [payload] [])⟩]

end AtomTimeline
