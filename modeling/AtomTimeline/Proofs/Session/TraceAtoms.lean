import AtomTimeline.Proofs.Statsd.Splitting

/-!
The atoms of a trace with their timestamps, read off the packets without a session.

* `Trace.atoms` walks the packets in order: of each that can be read to its end it takes the last
  batch, and gives every atom in it the timestamp at its position, or else the packet's.
* `Trace.packetTime`: a packet without a timestamp has the latest one of the packets before it, and
  at least zero.
* `Trace.atoms_append_singleton`: one more packet adds its own atoms and changes nothing before.
-/

namespace AtomTimeline

namespace Trace

/-! ### One packet -/

/-- The packet can be read to its end. -/
def readable (b : Bytes) : Bool := (scan b).unread.isNone

/-- The timestamp a packet has of its own: its last one, taken as signed. -/
def ownTime? (b : Bytes) : Option Int64 :=
  ((scan b).fields.filterMap (Field.varint? PacketField.timestamp)).getLast?.map UInt64.toInt64

/-- The batch of a packet: its last length-delimited field with the id of batches. -/
def batch? (b : Bytes) : Option Batch :=
  ((scan b).fields.filterMap (Field.bytes? PacketField.statsdAtom)).getLast?.map Batch.decode

/-- The atoms of a batch, each under the timestamp at its position if there is one. -/
def stamped (missing : Int64) (batch : Batch) : List StampedAtom :=
  batch.atoms.zipIdx.map fun entry => (batch.timestamps[entry.2]?.getD missing, entry.1)

/-! ### Packets in order -/

/-- The latest timestamp of packets that can be read, and at least zero. -/
def latestTime (packets : List Bytes) : Int64 :=
  ((packets.filter readable).filterMap ownTime?).foldl max 0

/-- The timestamp of a packet: its own, or else the latest one before it. -/
def packetTime (latest : Int64) (b : Bytes) : Int64 := (ownTime? b).getD latest

/-- The atoms of a packet; none if it cannot be read or has no batch. -/
def packetAtoms (latest : Int64) (b : Bytes) : List StampedAtom :=
  if readable b then ((batch? b).map (stamped (packetTime latest b))).getD [] else []

/-- The atoms of packets in the order of the packets, each with its timestamp. -/
def atoms (packets : List Bytes) : List StampedAtom :=
  packets.zipIdx.flatMap fun entry => packetAtoms (latestTime (packets.take entry.2)) entry.1

@[simp] lemma atoms_nil : atoms [] = [] := rfl

theorem atoms_append_singleton (packets : List Bytes) (b : Bytes) :
    atoms (packets ++ [b]) = atoms packets ++ packetAtoms (latestTime packets) b := by
  have hfront : ∀ entry ∈ packets.zipIdx,
      packetAtoms (latestTime ((packets ++ [b]).take entry.2)) entry.1 =
        packetAtoms (latestTime (packets.take entry.2)) entry.1 := by
    intro entry hentry
    have hlt : entry.2 < packets.length := by
      have := List.snd_lt_of_mem_zipIdx hentry
      omega
    rw [List.take_append_of_le_length (by omega)]
  rw [atoms, List.zipIdx_append, List.flatMap_append, List.flatMap_def, List.map_congr_left hfront,
    ← List.flatMap_def]
  simp [atoms]

/-- The latest timestamp once a packet was seen. -/
def nextTime (latest : Int64) (b : Bytes) : Int64 :=
  if readable b then ((ownTime? b).map (max latest)).getD latest else latest

lemma latestTime_append_singleton (packets : List Bytes) (b : Bytes) :
    latestTime (packets ++ [b]) = nextTime (latestTime packets) b := by
  simp only [latestTime, nextTime, List.filter_append, List.filterMap_append, List.foldl_append]
  cases hr : readable b <;> cases ht : ownTime? b <;> simp [hr, ht]

/-! ### What a packet's view says of it -/

lemma malformed_decode (b : Bytes) : (PacketView.decode b).malformed = !readable b := by
  simp only [PacketView.decode, PacketView.ofScan, Scan.malformed, readable]
  cases (scan b).unread <;> rfl

lemma timestamp_decode (b : Bytes) :
    (PacketView.decode b).timestamp.map UInt64.toInt64 = ownTime? b := rfl

lemma statsd_decode (b : Bytes) : (PacketView.decode b).statsd.map Batch.decode = batch? b := rfl

lemma statsdAtom_mem_fieldIds {b batch : Bytes} (h : (PacketView.decode b).statsd = some batch) :
    PacketField.statsdAtom ∈ (PacketView.decode b).fieldIds := by
  obtain ⟨f, hf, hbytes⟩ := List.mem_filterMap.mp (List.mem_of_getLast? h)
  rw [Field.bytes?_eq_some_iff] at hbytes
  exact PacketView.mem_fieldIds_decode.mpr ⟨f, hf, by rw [hbytes]⟩

/-- The importer splits an offered packet into packets of the atoms. -/
lemma map_atom_tokens {b : Bytes} (ts : Int64) (sequence : SequenceHandle) :
    (AtomImporter.tokens ⟨PacketView.decode b, ts, sequence, PacketField.statsdAtom⟩).map
      TimedPacket.atom = ((batch? b).map (stamped ts)).getD [] := by
  rw [AtomImporter.tokens, if_pos rfl, ← statsd_decode]
  cases hbatch : (PacketView.decode b).statsd with
  | none => rfl
  | some batch =>
      simp only [Option.map_some, Option.getD_some, List.map_map, Batch.resolved,
        Batch.stamp_eq_map_zipIdx, stamped]
      refine List.map_congr_left fun entry hentry => ?_
      have hmem : entry.1 ∈ (Batch.decode batch).atoms := List.fst_mem_of_mem_zipIdx hentry
      have hholds : TimedPacket.HoldsAtom (AtomImporter.timedAtom sequence
          ((Batch.decode batch).timestamps[entry.2]?.getD ts, entry.1)) entry.1 :=
        ⟨fitsBatch_of_mem_atoms hbatch hmem, rfl⟩
      exact hholds.atom_eq

end Trace

end AtomTimeline
