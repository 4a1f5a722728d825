import AtomTimeline.Proofs.Wire.RoundTrip
import AtomTimeline.Packet.Batch

/-!
Packets of one atom.

* `PacketView.decode_singletonPacket`, `Batch.decode_encode_singleton`: the packet made of an atom
  and its timestamp reads back as just these, its fields being the timestamp and the batch in this
  order. The atom must leave room for the batch around it (`FitsBatch`).
* `fitsBatch_of_mem_atoms`: every atom that was taken out of a packet leaves that room, so whatever
  bytes a batch was read from, its atoms can be put into packets of their own.
-/

namespace AtomTimeline

/-! ### Fields with a value of one kind -/

namespace Field

lemma varint?_varint (id other : UInt32) (v : UInt64) :
    varint? id ⟨other, .varint v⟩ = if other = id then some v else none := rfl

lemma varint?_lengthDelimited (id other : UInt32) (b : Bytes) :
    varint? id ⟨other, .lengthDelimited b⟩ = none := rfl

lemma bytes?_varint (id other : UInt32) (v : UInt64) :
    bytes? id ⟨other, .varint v⟩ = none := rfl

lemma bytes?_lengthDelimited (id other : UInt32) (b : Bytes) :
    bytes? id ⟨other, .lengthDelimited b⟩ = if other = id then some b else none := rfl

lemma varint?_eq_some_iff {id : UInt32} {f : Field} {v : UInt64} :
    f.varint? id = some v ↔ f = ⟨id, .varint v⟩ := by
  obtain ⟨other, value⟩ := f
  cases value with
  | varint w =>
      rw [varint?_varint]
      by_cases hid : other = id <;> simp [hid]
  | fixed64 w => simp [varint?]
  | lengthDelimited b => simp [varint?]
  | fixed32 w => simp [varint?]

lemma bytes?_eq_some_iff {id : UInt32} {f : Field} {b : Bytes} :
    f.bytes? id = some b ↔ f = ⟨id, .lengthDelimited b⟩ := by
  obtain ⟨other, value⟩ := f
  cases value with
  | varint v => simp [bytes?]
  | fixed64 v => simp [bytes?]
  | lengthDelimited c =>
      rw [bytes?_lengthDelimited]
      by_cases hid : other = id <;> simp [hid]
  | fixed32 v => simp [bytes?]

end Field

/-- Only a length-delimited field with the id of atoms adds an atom to a batch. -/
lemma BatchPart.ofField_eq_atom {f : Field} {payload : Bytes} (h : ofField f = .atom payload) :
    f = ⟨BatchField.atom, .lengthDelimited payload⟩ := by
  obtain ⟨id, value⟩ := f
  cases value with
  | lengthDelimited b =>
      simp only [ofField] at h
      split at h
      · next hid =>
        cases h
        rw [hid]
      · split at h
        · split at h <;> cases h
        · cases h
  | varint v =>
      simp only [ofField] at h
      split at h <;> cases h
  | fixed64 v => cases h
  | fixed32 v => cases h

/-! ### Batches of one atom -/

/-- A batch of this one atom has a length that can be written. -/
def FitsBatch (payload : Bytes) : Prop := (Batch.encode [payload] []).length < 2 ^ 64

/-- An atom of a length that fits a signed word leaves room, since its tag and its length take
eleven bytes at most. -/
lemma fitsBatch_of_length_lt_signed {payload : Bytes} (h : payload.length < 2 ^ 63) :
    FitsBatch payload := by
  have htag : (writeTag BatchField.atom .lengthDelimited).length = 1 := by
    simp [writeTag, BatchField.atom, WireType.code, Varint.write, Varint.groups]
  have hwrite := Varint.length_write_le (UInt64.ofNat payload.length)
  simp only [Varint.maxLength] at hwrite
  simp only [FitsBatch, Batch.encode, List.map_cons, List.map_nil, List.append_nil, writeFields,
    List.flatMap_cons, List.flatMap_nil, Field.write, FieldValue.wireType, FieldValue.write,
    List.length_append, htag]
  omega

lemma fitsBatch_of_length_lt {payload : Bytes} (h : payload.length < 128) : FitsBatch payload :=
  fitsBatch_of_length_lt_signed (h.trans (by decide))

namespace Batch

lemma encode_singleton (payload : Bytes) :
    encode [payload] [] = writeFields [⟨BatchField.atom, .lengthDelimited payload⟩] := rfl

lemma length_encode_singleton (payload : Bytes) :
    (encode [payload] []).length =
      (Field.write ⟨BatchField.atom, .lengthDelimited payload⟩).length := by
  rw [encode_singleton, writeFields, List.flatMap_singleton]

/-- An atom is no longer than the batch of it. -/
lemma length_le_encode_singleton (payload : Bytes) :
    payload.length ≤ (encode [payload] []).length := by
  rw [length_encode_singleton]
  exact Field.length_bytes_le_write ⟨BatchField.atom, .lengthDelimited payload⟩

lemma fits_atom {payload : Bytes} (h : FitsBatch payload) :
    Field.Fits ⟨BatchField.atom, .lengthDelimited payload⟩ :=
  ⟨show BatchField.atom ≠ 0 by decide, lt_of_le_of_lt (length_le_encode_singleton payload) h⟩

/-- The batch of one atom reads back as that atom, without timestamps. -/
theorem decode_encode_singleton {payload : Bytes} (h : FitsBatch payload) :
    decode (encode [payload] []) = ⟨[payload], [], false⟩ := by
  have hscan : scan (writeFields [⟨BatchField.atom, .lengthDelimited payload⟩]) =
      ⟨[⟨BatchField.atom, .lengthDelimited payload⟩], none⟩ :=
    scan_writeFields (by simpa using fits_atom h)
  rw [decode, encode_singleton, hscan]
  simp [ofScan, BatchPart.ofField, cons, Scan.malformed]

/-- An atom of a batch is a field of the bytes it was read from. -/
lemma mem_atoms_ofScan {s : Scan} {payload : Bytes} (h : payload ∈ (ofScan s).atoms) :
    ⟨BatchField.atom, .lengthDelimited payload⟩ ∈ s.fields := by
  obtain ⟨fields, unread⟩ := s
  simp only [ofScan] at h
  generalize Scan.malformed ⟨fields, unread⟩ = malformed at h
  induction fields with
  | nil => simp at h
  | cons f fields ih =>
      rw [List.map_cons, List.foldr_cons] at h
      rw [List.mem_cons]
      cases hpart : BatchPart.ofField f with
      | atom found =>
          rw [hpart, cons, List.mem_cons] at h
          rcases h with rfl | h
          · exact Or.inl (BatchPart.ofField_eq_atom hpart).symm
          · exact Or.inr (ih h)
      | timestamps values =>
          rw [hpart] at h
          exact Or.inr (ih h)
      | badRun =>
          rw [hpart] at h
          simp [cons] at h
      | other =>
          rw [hpart] at h
          exact Or.inr (ih h)

/-- The batch of an atom that was read is no longer than the bytes it was read from. -/
lemma length_encode_le_of_mem_atoms {b payload : Bytes} (h : payload ∈ (decode b).atoms) :
    (encode [payload] []).length ≤ b.length := by
  rw [length_encode_singleton]
  exact (fits_of_mem_scan (mem_atoms_ofScan h)).2

end Batch

namespace PacketView

/-- The batch of a packet has a length that can be written, since it was read. -/
lemma length_statsd_lt {b batch : Bytes} (h : (decode b).statsd = some batch) :
    batch.length < 2 ^ 64 := by
  obtain ⟨f, hf, hbytes⟩ := List.mem_filterMap.mp (List.mem_of_getLast? h)
  have hfits := (fits_of_mem_scan hf).1.value
  rwa [Field.bytes?_eq_some_iff.mp hbytes] at hfits

/-- The packet of one atom reads back as its timestamp and its batch, in this order. -/
theorem decode_singletonPacket {payload : Bytes} (h : FitsBatch payload) (ts : Int64) :
    decode (singletonPacket ts payload) =
      { timestamp := some ts.toUInt64
        sequenceId := none
        cleared := false
        statsd := some (Batch.encode [payload] [])
        fieldIds := [PacketField.timestamp, PacketField.statsdAtom]
        malformed := false } := by
  have hscan : scan (singletonPacket ts payload) =
      ⟨[⟨PacketField.timestamp, .varint ts.toUInt64⟩,
        ⟨PacketField.statsdAtom, .lengthDelimited (Batch.encode [payload] [])⟩], none⟩ := by
    refine scan_writeFields fun f hf => ?_
    simp only [List.mem_cons, List.not_mem_nil, or_false] at hf
    rcases hf with rfl | rfl
    · exact ⟨show PacketField.timestamp ≠ 0 by decide, by simp [FieldValue.Fits, FieldValue.bytes]⟩
    · exact ⟨show PacketField.statsdAtom ≠ 0 by decide, h⟩
  rw [decode, hscan]
  simp [ofScan, List.filterMap_cons, Field.varint?_varint, Field.varint?_lengthDelimited,
    Field.bytes?_varint, Field.bytes?_lengthDelimited, Field.marksCleared, Scan.malformed,
    List.eraseDups_cons, PacketField.timestamp, PacketField.sequenceId, PacketField.statsdAtom,
    PacketField.sequenceFlags, PacketField.incrementalStateCleared]

end PacketView

/-- Every atom of a packet's batch fits a batch of its own. -/
theorem fitsBatch_of_mem_atoms {b batch payload : Bytes}
    (hbatch : (PacketView.decode b).statsd = some batch)
    (h : payload ∈ (Batch.decode batch).atoms) : FitsBatch payload :=
  lt_of_le_of_lt (Batch.length_encode_le_of_mem_atoms h) (PacketView.length_statsd_lt hbatch)

end AtomTimeline
