import AtomTimeline.Proofs.Packet.Singleton
import AtomTimeline.Proofs.Sorter.StableOrder
import AtomTimeline.Proofs.Statsd.Recording

/-!
Batches split into packets of one atom.

* `TimedPacket.HoldsAtom`: a queued packet is the one made of an atom and its own timestamp.
  `AtomImporter.parse_of_holdsAtom`: what the importer does with such a packet is to record that
  atom, so the check for exactly one atom does not fail.
* `AtomImporter.tokens` are the packets a batch is split into, `AtomImporter.sorter_tokenize` says
  that just these are queued, and `AtomImporter.holdsAtom_of_mem_tokens` that each holds its atom.
* `AtomImporter.parseAtom_fatal`: recording an atom fails no check, whatever the timeline holds.
-/

namespace AtomTimeline

/-! ### Packets that hold one atom -/

namespace TimedPacket

/-- The packet is the one made of the atom and the timestamp under which it waits. -/
structure HoldsAtom (p : TimedPacket) (payload : Bytes) : Prop where
  fits : FitsBatch payload
  blob_eq : p.blob = singletonPacket p.ts payload

/-- The atom in a packet, under the packet's timestamp. -/
def atom (p : TimedPacket) : StampedAtom :=
  (p.ts, (Batch.decode ((PacketView.decode p.blob).statsd.getD [])).atoms.headD [])

variable {p : TimedPacket} {payload : Bytes}

lemma HoldsAtom.atoms_eq (h : p.HoldsAtom payload) :
    (Batch.decode ((PacketView.decode p.blob).statsd.getD [])).atoms = [payload] := by
  rw [h.blob_eq, PacketView.decode_singletonPacket h.fits, Option.getD_some,
    Batch.decode_encode_singleton h.fits]

lemma HoldsAtom.atom_eq (h : p.HoldsAtom payload) : p.atom = (p.ts, payload) := by
  rw [atom, h.atoms_eq, List.headD_cons]

lemma HoldsAtom.fieldIds_eq (h : p.HoldsAtom payload) :
    (PacketView.decode p.blob).fieldIds = [PacketField.timestamp, PacketField.statsdAtom] := by
  rw [h.blob_eq, PacketView.decode_singletonPacket h.fits]

end TimedPacket

/-! ### Splitting -/

namespace Batch

lemma mem_atoms_of_mem_stamp {missing : Int64} {atoms : List Bytes} {times : List Int64}
    {atom : StampedAtom} (h : atom ∈ stamp missing atoms times) : atom.2 ∈ atoms := by
  induction atoms generalizing times with
  | nil => cases h
  | cons payload atoms ih =>
      cases times with
      | nil =>
          rcases List.mem_cons.mp h with rfl | h
          · exact List.mem_cons_self
          · exact List.mem_cons_of_mem _ (ih h)
      | cons ts times =>
          rcases List.mem_cons.mp h with rfl | h
          · exact List.mem_cons_self
          · exact List.mem_cons_of_mem _ (ih h)

/-- The atom at a position gets the timestamp at that position, if there is one. -/
lemma stamp_eq_map_zipIdx (missing : Int64) (atoms : List Bytes) (times : List Int64) :
    stamp missing atoms times =
      atoms.zipIdx.map fun entry => (times[entry.2]?.getD missing, entry.1) := by
  induction atoms generalizing times with
  | nil => rfl
  | cons payload atoms ih =>
      cases times with
      | nil =>
          rw [stamp, ih, List.zipIdx_cons', List.map_cons, List.map_map]
          rfl
      | cons ts times =>
          rw [stamp, ih, List.zipIdx_cons', List.map_cons, List.map_map]
          rfl

end Batch

namespace AtomImporter

/-- The packets into which an offered packet is split. -/
def tokens (offer : PacketOffer) : List TimedPacket :=
  if offer.field = PacketField.statsdAtom then
    match offer.packet.statsd with
    | none => []
    | some b => ((Batch.decode b).resolved offer.ts).map (timedAtom offer.sequence)
  else []

/-- Just the packets of one atom are queued, in the order of the batch. -/
theorem sorter_tokenize (context : Context) (offer : PacketOffer) :
    (tokenize context offer).2.sorter = (tokens offer).foldl Sorter.push context.sorter := by
  rw [tokenize, tokens]
  by_cases hfield : offer.field = PacketField.statsdAtom
  · rw [if_neg (by simpa using hfield), if_pos hfield]
    cases offer.packet.statsd with
    | none => rfl
    | some b => rfl
  · rw [if_pos hfield, if_neg hfield]
    rfl

/-- Of the timeline only counters change. -/
lemma timeline_tokenize (context : Context) (offer : PacketOffer) :
    ∃ counters, (tokenize context offer).2.timeline =
      { context.timeline with storage := { context.timeline.storage with counters } } := by
  rw [tokenize]
  split
  · exact ⟨_, rfl⟩
  · split
    · exact ⟨_, rfl⟩
    · simp only [queueBatch]
      split <;> exact ⟨_, rfl⟩

/-- Splitting counts malformed batches and atoms without a timestamp, and nothing else. -/
lemma get_tokenize (context : Context) (offer : PacketOffer) {stat : Stat}
    (hmalformed : stat ≠ .packetMalformed) (hmissing : stat ≠ .atomTimestampMissing) :
    (tokenize context offer).2.timeline.storage.counters.get stat =
      context.timeline.storage.counters.get stat := by
  rw [tokenize]
  split
  · rfl
  · split
    · rfl
    · simp only [queueBatch]
      split <;> simp [Timeline.mapStorage, Timeline.count, Storage.count, Storage.countBy,
        hmalformed, hmissing]

/-- A packet that is not handled is not split. -/
lemma tokens_of_ignored {context : Context} {offer : PacketOffer}
    (h : (tokenize context offer).1 = .ignored) : tokens offer = [] := by
  rw [tokens]
  by_cases hfield : offer.field = PacketField.statsdAtom
  · rw [if_pos hfield]
    cases hbatch : offer.packet.statsd with
    | none => rfl
    | some batch =>
        -- a batch is split, whatever is in it
        rw [tokenize, if_neg (by simpa using hfield), hbatch] at h
        cases h
  · rw [if_neg hfield]

/-- Each of the packets holds an atom of the batch. -/
theorem holdsAtom_of_mem_tokens {offer : PacketOffer} {b : Bytes}
    (hpacket : offer.packet = PacketView.decode b) {p : TimedPacket} (h : p ∈ tokens offer) :
    ∃ payload, p.HoldsAtom payload := by
  rw [tokens, hpacket] at h
  split at h
  · split at h
    · cases h
    · next batch hbatch =>
      obtain ⟨atom, hatom, rfl⟩ := List.mem_map.mp h
      exact ⟨atom.2, fitsBatch_of_mem_atoms hbatch (Batch.mem_atoms_of_mem_stamp hatom), rfl⟩
  · cases h

/-! ### Parsing what was split -/

/-- Recording an atom fails no check. -/
theorem parseAtom_fatal (i : AtomImporter) (t : Timeline) (ts : Int64) (payload : Bytes) :
    (i.parseAtom t ts payload).1 = none := by
  simp only [parseAtom]
  split
  · rfl
  · simp only [recordArgs, Storage.insertOffers_map_arg]

/-- A packet that holds one atom is parsed by recording that atom. -/
theorem parse_of_holdsAtom {p : TimedPacket} {payload : Bytes} (h : p.HoldsAtom payload)
    (i : AtomImporter) (t : Timeline) :
    i.parse t ⟨PacketView.decode p.blob, p.ts, PacketField.statsdAtom⟩ =
      i.parseAtom t p.ts payload := by
  rw [parse, if_neg (by simp)]
  simp only [h.atoms_eq]

/-- No check fails on a packet that holds one atom, for whichever field it is handed back. -/
lemma parse_fatal {p : TimedPacket} {payload : Bytes} (h : p.HoldsAtom payload)
    (i : AtomImporter) (t : Timeline) (field : UInt32) :
    (i.parse t ⟨PacketView.decode p.blob, p.ts, field⟩).1 = none := by
  by_cases hfield : field = PacketField.statsdAtom
  · rw [hfield, parse_of_holdsAtom h, parseAtom_fatal]
  · rw [parse, if_pos hfield]

end AtomImporter

end AtomTimeline
