import AtomTimeline.Proofs.Packet.Singleton
import AtomTimeline.Proofs.Wire.NormalForm

/-!
The ways to lay out a batch. The format leaves open how atoms and timestamps are mixed, how the
timestamps are grouped into packed runs, and what else stands between them.

* `Batch.Layout`: fields that hold the given atoms and timestamps, each in order.
* `Batch.Layout.ofScan_eq`, `Batch.layout_of_ofScan`: just these fields are put together to the
  batch of these atoms and timestamps.
* `Batch.decode_eq_iff_laidOut`: so whatever its layout, a batch is read as what was laid out, and
  nothing else is read as that. `Batch.laidOut_encode`: what is written is one of the layouts.
-/

namespace AtomTimeline

/-! ### What a field adds -/

/-- The field is neither an atom nor one or more timestamps, be it for its id or for its type. -/
structure BatchField.Foreign (f : Field) : Prop where
  not_atom : ∀ payload, f ≠ ⟨1, .lengthDelimited payload⟩
  not_timestamp : ∀ v, f ≠ ⟨2, .varint v⟩
  not_run : ∀ run, f ≠ ⟨2, .lengthDelimited run⟩

namespace BatchPart

lemma ofField_varint (id : UInt32) (v : UInt64) :
    ofField ⟨id, .varint v⟩ = if id = 2 then .timestamps [v.toInt64] else .other := rfl

lemma ofField_run (run : Bytes) :
    ofField ⟨2, .lengthDelimited run⟩ =
      match Varint.split run with
      | .ok vs => .timestamps (vs.map UInt64.toInt64)
      | .error _ => .badRun := rfl

lemma ofField_bytes_of_ne {id : UInt32} (hatom : id ≠ 1) (hts : id ≠ 2) (b : Bytes) :
    ofField ⟨id, .lengthDelimited b⟩ = .other :=
  (if_neg hatom).trans (if_neg hts)

lemma ofField_run_of_spelled {values : List Int64} {run : Bytes}
    (h : Varint.SpelledRun (values.map Int64.toUInt64) run) :
    ofField ⟨2, .lengthDelimited run⟩ = .timestamps values := by
  have hvalues : (values.map Int64.toUInt64).map UInt64.toInt64 = values := by
    rw [List.map_map]
    exact List.map_id'' (fun _ => rfl) values
  simp only [ofField_run, Varint.split_eq_ok_iff.mpr h, hvalues]

/-- A field that adds timestamps is one of them, or a run of spellings of them. -/
lemma ofField_eq_timestamps {f : Field} {values : List Int64} (h : ofField f = .timestamps values) :
    (∃ ts, f = ⟨2, .varint ts.toUInt64⟩ ∧ values = [ts]) ∨
      ∃ run, f = ⟨2, .lengthDelimited run⟩ ∧
        Varint.SpelledRun (values.map Int64.toUInt64) run := by
  obtain ⟨id, value⟩ := f
  cases value with
  | varint v =>
      rw [ofField_varint] at h
      split at h
      · next hid =>
        cases h
        exact .inl ⟨v.toInt64, by rw [hid]; rfl, rfl⟩
      · cases h
  | fixed64 v => cases h
  | lengthDelimited run =>
      by_cases hatom : id = 1
      · subst hatom
        cases h
      · by_cases hts : id = 2
        · subst hts
          rw [ofField_run] at h
          split at h
          · next vs hvs =>
            cases h
            have hvalues : (vs.map UInt64.toInt64).map Int64.toUInt64 = vs := by
              rw [List.map_map]
              exact List.map_id'' (fun _ => rfl) vs
            exact .inr ⟨run, rfl, Varint.split_eq_ok_iff.mp (by rw [hvs, hvalues])⟩
          · cases h
        · rw [ofField_bytes_of_ne hatom hts] at h
          cases h
  | fixed32 v => cases h

lemma ofField_eq_other_iff {f : Field} : ofField f = .other ↔ BatchField.Foreign f := by
  constructor
  · intro h
    refine ⟨?_, ?_, ?_⟩
    · rintro payload rfl
      cases h
    · rintro v rfl
      cases h
    · rintro run rfl
      rw [ofField_run] at h
      split at h <;> cases h
  · intro h
    obtain ⟨id, value⟩ := f
    cases value with
    | varint v =>
        rw [ofField_varint]
        refine if_neg ?_
        rintro rfl
        exact h.not_timestamp v rfl
    | fixed64 v => rfl
    | lengthDelimited b =>
        refine ofField_bytes_of_ne ?_ ?_ b
        · rintro rfl
          exact h.not_atom b rfl
        · rintro rfl
          exact h.not_run b rfl
    | fixed32 v => rfl

end BatchPart

namespace Batch

/-! ### Layouts -/

/-- The fields hold the atoms and the timestamps, each in order. Timestamps stand alone or in packed
runs, which may be empty, and fields that hold neither may stand anywhere. -/
inductive Layout : List Bytes → List Int64 → List Field → Prop where
  | nil : Layout [] [] []
  | atom {payload : Bytes} {atoms : List Bytes} {timestamps : List Int64} {fs : List Field} :
    Layout atoms timestamps fs →
      Layout (payload :: atoms) timestamps (⟨1, .lengthDelimited payload⟩ :: fs)
  | timestamp {ts : Int64} {atoms : List Bytes} {timestamps : List Int64} {fs : List Field} :
    Layout atoms timestamps fs →
      Layout atoms (ts :: timestamps) (⟨2, .varint ts.toUInt64⟩ :: fs)
  | run {values : List Int64} {run : Bytes} {atoms : List Bytes} {timestamps : List Int64}
    {fs : List Field} :
    Varint.SpelledRun (values.map Int64.toUInt64) run → Layout atoms timestamps fs →
      Layout atoms (values ++ timestamps) (⟨2, .lengthDelimited run⟩ :: fs)
  | foreign {f : Field} {atoms : List Bytes} {timestamps : List Int64} {fs : List Field} :
    BatchField.Foreign f → Layout atoms timestamps fs → Layout atoms timestamps (f :: fs)

variable {atoms : List Bytes} {timestamps : List Int64} {fs : List Field}

lemma ofScan_cons (f : Field) (fs : List Field) (unread : Option Bytes) :
    ofScan ⟨f :: fs, unread⟩ = cons (BatchPart.ofField f) (ofScan ⟨fs, unread⟩) := rfl

/-- What was laid out is what is put together, one case for each kind of field. -/
lemma Layout.ofScan_eq (h : Layout atoms timestamps fs) :
    ofScan ⟨fs, none⟩ = ⟨atoms, timestamps, false⟩ := by
  induction h with
  | nil => rfl
  | atom _ ih =>
      rw [ofScan_cons, ih]
      rfl
  | timestamp _ ih =>
      rw [ofScan_cons, ih]
      rfl
  | run hrun _ ih =>
      rw [ofScan_cons, ih, BatchPart.ofField_run_of_spelled hrun]
      rfl
  | foreign hf _ ih =>
      rw [ofScan_cons, ih, BatchPart.ofField_eq_other_iff.mpr hf]
      rfl

/-- What was put together without fault was laid out by the fields, of which none was missed. -/
lemma layout_of_ofScan {unread : Option Bytes}
    (h : ofScan ⟨fs, unread⟩ = ⟨atoms, timestamps, false⟩) :
    unread = none ∧ Layout atoms timestamps fs := by
  induction fs generalizing atoms timestamps with
  | nil =>
      cases unread with
      | none =>
          cases h
          exact ⟨rfl, .nil⟩
      | some left => cases h
  | cons f fs ih =>
      rw [ofScan_cons] at h
      generalize ofScan ⟨fs, unread⟩ = behind at h ih
      obtain ⟨others, later, malformed⟩ := behind
      cases hpart : BatchPart.ofField f with
      | atom payload =>
          rw [hpart] at h
          cases h
          rw [BatchPart.ofField_eq_atom hpart]
          exact ⟨(ih rfl).1, .atom (ih rfl).2⟩
      | timestamps values =>
          rw [hpart] at h
          cases h
          obtain ⟨ts, rfl, rfl⟩ | ⟨run, rfl, hrun⟩ := BatchPart.ofField_eq_timestamps hpart
          · exact ⟨(ih rfl).1, .timestamp (ih rfl).2⟩
          · exact ⟨(ih rfl).1, .run hrun (ih rfl).2⟩
      | badRun =>
          rw [hpart] at h
          cases h
      | other =>
          rw [hpart] at h
          cases h
          exact ⟨(ih rfl).1, .foreign (BatchPart.ofField_eq_other_iff.mp hpart) (ih rfl).2⟩

/-- The bytes are a layout of the atoms and the timestamps, each field in any of its spellings. -/
def LaidOut (atoms : List Bytes) (timestamps : List Int64) (b : Bytes) : Prop :=
  ∃ fs, Layout atoms timestamps fs ∧ SpelledFields fs b

/-- **A batch is read** as atoms and timestamps without fault if and only if the bytes are a layout
of them. -/
theorem decode_eq_iff_laidOut {b : Bytes} :
    decode b = ⟨atoms, timestamps, false⟩ ↔ LaidOut atoms timestamps b := by
  constructor
  · intro h
    obtain ⟨hclean, hlayout⟩ := layout_of_ofScan h
    exact ⟨(scan b).fields, hlayout, scan_eq_clean_iff.mp (by rw [← hclean])⟩
  · rintro ⟨fs, hlayout, hspelled⟩
    rw [decode, scan_eq_clean_iff.mpr hspelled, hlayout.ofScan_eq]

/-- The fields that are written: the atoms, and behind them each timestamp on its own. -/
lemma layout_written (atoms : List Bytes) (timestamps : List Int64) :
    Layout atoms timestamps
      (atoms.map (fun payload => ⟨BatchField.atom, .lengthDelimited payload⟩) ++
        timestamps.map (fun ts => ⟨BatchField.timestamps, .varint ts.toUInt64⟩)) := by
  induction atoms with
  | nil =>
      induction timestamps with
      | nil => exact .nil
      | cons ts timestamps ih => exact .timestamp ih
  | cons payload atoms ih => exact .atom ih

/-- What is written is one of the layouts. -/
theorem laidOut_encode (h : ∀ payload ∈ atoms, payload.length < 2 ^ 64) :
    LaidOut atoms timestamps (encode atoms timestamps) := by
  refine ⟨_, layout_written atoms timestamps, spelledFields_writeFields fun f hf => ?_⟩
  rcases List.mem_append.mp hf with hf | hf
  · obtain ⟨payload, hpayload, rfl⟩ := List.mem_map.mp hf
    exact ⟨show BatchField.atom ≠ 0 by decide, h payload hpayload⟩
  · obtain ⟨ts, -, rfl⟩ := List.mem_map.mp hf
    exact ⟨show BatchField.timestamps ≠ 0 by decide, by simp [FieldValue.Fits, FieldValue.bytes]⟩

/-- **Every layout is read as what was laid out.** Bytes are read as atoms and timestamps without
fault if and only if they are a layout of them: the atoms in order, the timestamps in order, grouped
in any way into single ones and packed runs, the two mixed in any way with each other and with
fields that are neither. What is written is one such layout. A packet made of an atom and its
timestamp is read as the timestamp and a batch of just that atom, with nothing else in it. The
lengths of the atoms are to fit a signed word. -/
theorem decode_layouts :
    (∀ atoms timestamps b, LaidOut atoms timestamps b ↔ decode b = ⟨atoms, timestamps, false⟩) ∧
    (∀ atoms timestamps, (∀ payload ∈ atoms, payload.length < 2 ^ 63) →
      LaidOut atoms timestamps (encode atoms timestamps)) ∧
    ∀ ts (payload : Bytes), payload.length < 2 ^ 63 →
      ∃ batch, PacketView.decode (singletonPacket ts payload) =
          { timestamp := some ts.toUInt64
            sequenceId := none
            cleared := false
            statsd := some batch
            fieldIds := [8, 84]
            malformed := false } ∧
        decode batch = ⟨[payload], [], false⟩ := by
  refine ⟨fun _ _ _ => decode_eq_iff_laidOut.symm, fun atoms timestamps h => ?_,
    fun ts payload h => ?_⟩
  · exact laidOut_encode fun payload hpayload => (h payload hpayload).trans (by decide)
  · have hfits := fitsBatch_of_length_lt_signed h
    exact ⟨_, PacketView.decode_singletonPacket hfits ts, decode_encode_singleton hfits⟩

/-- Runs in front of the atom and behind it, the first one empty and the last with a negative
timestamp, and fields that are neither. The atom is the spelling of an empty atom. -/
theorem decode_layouts_of_mixed :
    LaidOut [[10, 0]] [5, -1, 7]
      [18, 0, 10, 2, 10, 0, 16, 5, 29, 0, 0, 0, 0,
        18, 11, 255, 255, 255, 255, 255, 255, 255, 255, 255, 1, 7, 8, 9] ∧
    (∀ payload ∈ [([10, 0] : Bytes)], payload.length < 2 ^ 63) ∧
    LaidOut [[10, 0]] [5, -1, 7] (encode [[10, 0]] [5, -1, 7]) ∧
    ∃ batch, PacketView.decode (singletonPacket (-1) [10, 0]) =
        { timestamp := some 18446744073709551615
          sequenceId := none
          cleared := false
          statsd := some batch
          fieldIds := [8, 84]
          malformed := false } ∧
      decode batch = ⟨[[10, 0]], [], false⟩ := by
  have hlengths : ∀ payload ∈ [([10, 0] : Bytes)], payload.length < 2 ^ 63 := by simp
  obtain ⟨hread, hwritten, hpacket⟩ := decode_layouts
  exact ⟨(hread _ _ _).mpr (by decide +kernel), hlengths, hwritten _ _ hlengths,
    hpacket (-1) [10, 0] (hlengths _ List.mem_cons_self)⟩

end Batch

end AtomTimeline
