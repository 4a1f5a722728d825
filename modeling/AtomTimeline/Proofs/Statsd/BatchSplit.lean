import AtomTimeline.Proofs.Statsd.Tallies
import AtomTimeline.Proofs.Wire.Grammar

/-!
What offering a batch to the importer of atoms does, and what it leaves alone.

* `Batch.decode_append`: what stands behind bytes that were read to their end as a batch adds its
  own atoms and timestamps. `Batch.malformed_iff`: so of a batch that breaks off just what stands in
  front of the fault is kept.
* `AtomImporter.tokenize_batch`: each atom is queued in a packet of its own, under its timestamp,
  and nothing else happens but that two counters are set.
-/

namespace AtomTimeline

namespace Batch

/-! ### Batches that break off -/

/-- The bytes begin with no field, or with a run of timestamps that cannot be read. -/
def BreaksOff (stop : Bytes) : Prop :=
  stop ≠ [] ∧ ((∃ left, Field.read stop = .error left) ∨
    ∃ f rest, Field.read stop = .ok (f, rest) ∧ BatchPart.ofField f = .badRun)

lemma decode_nil : decode [] = ⟨[], [], false⟩ := by
  rw [decode, scan_nil]
  rfl

lemma decode_of_read {b rest : Bytes} {f : Field} (h : Field.read b = .ok (f, rest)) :
    decode b = cons (BatchPart.ofField f) (decode rest) := by
  rw [decode, scan_of_read h, ofScan, Scan.cons, List.map_cons, List.foldr_cons]
  rfl

/-- Where a batch breaks off nothing is read. -/
lemma decode_of_breaksOff {stop : Bytes} (h : BreaksOff stop) : decode stop = ⟨[], [], true⟩ := by
  obtain ⟨hne, ⟨left, hr⟩ | ⟨f, rest, hr, hbad⟩⟩ := h
  · rw [decode, scan_of_read_error hne hr]
    rfl
  · rw [decode_of_read hr, hbad]
    rfl

lemma cons_of_ne_badRun {part : BatchPart} (h : part ≠ .badRun) (batch tail : Batch) :
    (cons part batch).malformed = batch.malformed ∧
      cons part ⟨batch.atoms ++ tail.atoms, batch.timestamps ++ tail.timestamps, tail.malformed⟩ =
        ⟨(cons part batch).atoms ++ tail.atoms, (cons part batch).timestamps ++ tail.timestamps,
          tail.malformed⟩ := by
  cases part with
  | atom payload => exact ⟨rfl, rfl⟩
  | timestamps values => exact ⟨rfl, by simp only [cons, List.append_assoc]⟩
  | badRun => exact absurd rfl h
  | other => exact ⟨rfl, rfl⟩

/-- **Behind a batch** that was read to its end, other bytes add what is read of them. -/
theorem decode_append {front : Bytes} (h : (decode front).malformed = false) (stop : Bytes) :
    decode (front ++ stop) =
      ⟨(decode front).atoms ++ (decode stop).atoms,
        (decode front).timestamps ++ (decode stop).timestamps, (decode stop).malformed⟩ := by
  induction front using scan_induction with
  | nil => rw [decode_nil, List.nil_append, List.nil_append, List.nil_append]
  | field front rest f hr ih =>
      obtain ⟨part, rfl, hpart⟩ := Field.read_eq_ok_iff.mp hr
      have hread := hpart.read_append (rest ++ stop)
      rw [← List.append_assoc] at hread
      rw [decode_of_read hr] at h ⊢
      have hgood : BatchPart.ofField f ≠ .badRun := by
        intro hbad
        rw [hbad] at h
        cases h
      obtain ⟨hmalformed, hcons⟩ := cons_of_ne_badRun hgood (decode rest) (decode stop)
      rw [decode_of_read hread, ih (hmalformed ▸ h), hcons]
  | fault front left hne hr =>
      rw [decode_of_breaksOff ⟨hne, .inl ⟨left, hr⟩⟩] at h
      cases h

/-- A batch that is malformed breaks off somewhere. -/
lemma exists_breaksOff {b : Bytes} (h : (decode b).malformed = true) :
    ∃ front stop, b = front ++ stop ∧ BreaksOff stop ∧ (decode front).malformed = false := by
  induction b using scan_induction with
  | nil =>
      rw [decode_nil] at h
      cases h
  | field b rest f hr ih =>
      by_cases hbad : BatchPart.ofField f = .badRun
      · exact ⟨[], b, rfl, ⟨Field.ne_nil_of_read hr, .inr ⟨f, rest, hr, hbad⟩⟩, by rw [decode_nil]⟩
      · rw [decode_of_read hr, (cons_of_ne_badRun hbad (decode rest) (decode rest)).1] at h
        obtain ⟨front, stop, rfl, hstop, hfront⟩ := ih h
        obtain ⟨part, rfl, hpart⟩ := Field.read_eq_ok_iff.mp hr
        refine ⟨part ++ front, stop, (List.append_assoc part front stop).symm, hstop, ?_⟩
        rw [decode_of_read (hpart.read_append front),
          (cons_of_ne_badRun hbad (decode front) (decode front)).1, hfront]
  | fault b left hne hr => exact ⟨[], b, rfl, ⟨hne, .inl ⟨left, hr⟩⟩, by rw [decode_nil]⟩

/-- **A batch is malformed** just if it breaks off somewhere. Its atoms and timestamps are then
those of what stands in front of the fault. -/
theorem malformed_iff {b : Bytes} :
    (decode b).malformed = true ↔ ∃ front stop, b = front ++ stop ∧ BreaksOff stop ∧
      decode front = ⟨(decode b).atoms, (decode b).timestamps, false⟩ := by
  constructor
  · intro h
    obtain ⟨front, stop, rfl, hstop, hfront⟩ := exists_breaksOff h
    refine ⟨front, stop, rfl, hstop, ?_⟩
    rw [decode_append hfront, decode_of_breaksOff hstop, List.append_nil, List.append_nil, ← hfront]
  · rintro ⟨front, stop, rfl, hstop, hfront⟩
    rw [decode_append (by rw [hfront]), decode_of_breaksOff hstop]

/-- Timestamps beyond the last atom make up for nothing. -/
lemma missingTimestamps_eq_max (batch : Batch) :
    Int64.ofNat batch.missingTimestamps =
      Int64.ofInt (max (batch.atoms.length - batch.timestamps.length : ℤ) 0) := by
  have hmax : (batch.missingTimestamps : ℤ) =
      max (batch.atoms.length - batch.timestamps.length : ℤ) 0 := by
    rw [missingTimestamps]
    omega
  rw [← hmax, Int64.ofInt_eq_ofNat]

end Batch

/-! ### What is queued -/

/-- A packet that holds an atom is read as its timestamp and a batch of just that atom. -/
lemma TimedPacket.HoldsAtom.decode_blob {p : TimedPacket} {payload : Bytes}
    (h : p.HoldsAtom payload) :
    (PacketView.decode p.blob).timestamp = some p.ts.toUInt64 ∧
      (PacketView.decode p.blob).statsd.map Batch.decode = some ⟨[payload], [], false⟩ := by
  rw [h.blob_eq, PacketView.decode_singletonPacket h.fits]
  exact ⟨rfl, congrArg some (Batch.decode_encode_singleton h.fits)⟩

namespace AtomImporter

/-- The packets of a batch are those of its atoms, in order. -/
lemma getElem?_resolved (batch : Batch) (missing : Int64) (sequence : SequenceHandle) {n : ℕ}
    {payload : Bytes} (h : batch.atoms[n]? = some payload) :
    ((batch.resolved missing).map (timedAtom sequence))[n]? =
      some (timedAtom sequence (batch.timestamps[n]?.getD missing, payload)) := by
  rw [Batch.resolved, Batch.stamp_eq_map_zipIdx, List.getElem?_map, List.getElem?_map,
    List.getElem?_zipIdx, h, Nat.zero_add]
  rfl

/-- **Splitting a batch** queues a packet for each atom, in order: under the timestamp at its
position if there is one, and otherwise under that of the offered packet. Just that atom and that
timestamp are in it, and are read of it. The batch is handled even if there is no atom in it. Two
counters grow: one by the number of atoms that have no timestamp of their own, the other by one just
if the batch breaks off, its atoms then being those in front of the fault. Nothing else in the
tables changes, and nothing of what the importer remembers. -/
theorem tokenize_batch (i : AtomImporter) (context : Context) {offer : PacketOffer} {b : Bytes}
    (hfield : offer.field = PacketField.statsdAtom) (hbatch : offer.packet.statsd = some b) :
    ∃ (ps : List TimedPacket) (counters : Counters),
      Importer.tokenize i context offer = (.handled, i,
        { timeline :=
            { context.timeline with storage := { context.timeline.storage with counters } }
          sorter := ps.foldl Sorter.push context.sorter }) ∧
      ps.length = (Batch.decode b).atoms.length ∧
      (∀ (n : ℕ) payload, (Batch.decode b).atoms[n]? = some payload →
        ∃ p, ps[n]? = some p ∧ p.ts = (Batch.decode b).timestamps[n]?.getD offer.ts ∧
          p.sequence = offer.sequence ∧ p.blob = singletonPacket p.ts payload ∧
          (b.length < 2 ^ 64 →
            (PacketView.decode p.blob).timestamp = some p.ts.toUInt64 ∧
              (PacketView.decode p.blob).statsd.map Batch.decode =
                some ⟨[payload], [], false⟩)) ∧
      counters = (context.timeline.storage.counters.add .packetMalformed
          (if (Batch.decode b).malformed then 1 else 0)).add .atomTimestampMissing
        (Int64.ofInt
          (max ((Batch.decode b).atoms.length - (Batch.decode b).timestamps.length : ℤ) 0)) ∧
      ((Batch.decode b).malformed = true ↔ ∃ front stop, b = front ++ stop ∧
        Batch.BreaksOff stop ∧
          Batch.decode front = ⟨(Batch.decode b).atoms, (Batch.decode b).timestamps, false⟩) := by
  have hcounted := Batch.missingTimestamps_eq_max (Batch.decode b)
  refine ⟨((Batch.decode b).resolved offer.ts).map (timedAtom offer.sequence), _, ?_, ?_, ?_, rfl,
    Batch.malformed_iff⟩
  · have htokenize := tokenize_of_batch context offer hfield hbatch
    rw [← hcounted]
    simp only [Importer.tokenize, htokenize, queueBatch, count_of_condition]
    rfl
  · rw [Batch.resolved, Batch.stamp_eq_map_zipIdx, List.length_map, List.length_map,
      List.length_zipIdx]
  · intro n payload hn
    refine ⟨_, getElem?_resolved _ _ _ hn, rfl, rfl, rfl, fun hlength => ?_⟩
    have hfits : FitsBatch payload :=
      lt_of_le_of_lt (Batch.length_encode_le_of_mem_atoms (List.mem_of_getElem? hn)) hlength
    exact TimedPacket.HoldsAtom.decode_blob ⟨hfits, rfl⟩

/-- A batch that breaks off behind its second atom, which has no timestamp of its own. -/
theorem tokenize_batch_of_two :
    ∃ (ps : List TimedPacket) (counters : Counters),
      Importer.tokenize (ofSchema .missing defaultTrackName) .initial
          ⟨⟨some 9, none, false, some [10, 1, 8, 16, 5, 10, 1, 16, 255], [8, 84], false⟩, 9,
            ⟨1, 0⟩, PacketField.statsdAtom⟩ =
        (.handled, ofSchema .missing defaultTrackName,
          { timeline := { Timeline.initial with storage := { Storage.initial with counters } }
            sorter := ps.foldl Sorter.push .empty }) ∧
      ps.length = 2 ∧ (∃ p, ps[0]? = some p ∧ p.ts = 5 ∧ p.blob = singletonPacket p.ts [8]) ∧
      (∃ p, ps[1]? = some p ∧ p.ts = 9 ∧ p.blob = singletonPacket p.ts [16]) ∧
      counters.packetMalformed = 1 ∧ counters.atomTimestampMissing = 1 := by
  have hdecode : Batch.decode [10, 1, 8, 16, 5, 10, 1, 16, 255] = ⟨[[8], [16]], [5], true⟩ := by
    decide +kernel
  obtain ⟨ps, counters, htokenize, hlength, hps, hcounters, -⟩ :=
    tokenize_batch (ofSchema .missing defaultTrackName) .initial
      (show PacketOffer.field
        ⟨⟨some 9, none, false, some [10, 1, 8, 16, 5, 10, 1, 16, 255], [8, 84], false⟩, 9,
          ⟨1, 0⟩, PacketField.statsdAtom⟩ = PacketField.statsdAtom from rfl) rfl
  rw [hdecode] at hlength hps hcounters
  obtain ⟨p, hp, hts, -, hblob, -⟩ := hps 0 [8] rfl
  obtain ⟨q, hq, hts', -, hblob', -⟩ := hps 1 [16] rfl
  exact ⟨ps, counters, htokenize, hlength, ⟨p, hp, hts, hblob⟩, ⟨q, hq, hts', hblob'⟩,
    by rw [hcounters]; decide, by rw [hcounters]; decide⟩

end AtomImporter

end AtomTimeline
