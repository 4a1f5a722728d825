import AtomTimeline.Proofs.Statsd.StringRoom
import AtomTimeline.Proofs.Statsd.UnknownAtoms
import AtomTimeline.Proofs.Wire.Iteration

/-!
The arguments of atoms that no schema decodes.

* `Field.ToldBy` says what is told of a field by its wire type alone, and `ToldFrom` of bytes:
  something of each field that a reader hands out. `toldFrom_iff`: these are the arguments read
  without a type, which are there for any bytes.
* `AtomPayload.body_of_spelled`, `AtomPayload.body_of_not_spelled`: what is read of a payload is the
  content of its first field if that is well-formed and length-delimited, whatever follows, and
  otherwise all of it.
* `AtomImporter.Reached.parse_untyped`: so in every state the importer comes to, the slice of an
  atom without a declared type has just these arguments.
-/

namespace AtomTimeline

/-! ### What is told of a field -/

/-- An argument under a name without positions. -/
def ArgRecord.named (name : String) (value : ReportedValue) : ArgRecord := ⟨name, name, value⟩

/-- What is told of a field of unknown type, one rule for each wire type: how many bytes it has, the
varint as a signed integer, or the real of single or double precision. -/
inductive Field.ToldBy : Field → ArgRecord → Prop where
  | lengthDelimited {id : UInt32} {b : Bytes} :
    ToldBy ⟨id, .lengthDelimited b⟩ (.named ("field_" ++ toString id.toNat) (.bytes b.length))
  | varint {id : UInt32} {v : UInt64} :
    ToldBy ⟨id, .varint v⟩ (.named ("field_" ++ toString id.toNat) (.int v.toInt64))
  | fixed32 {id : UInt32} {v : UInt32} :
    ToldBy ⟨id, .fixed32 v⟩
      (.named ("field_" ++ toString id.toNat ++ "_assuming_float") (.real (widenReal v)))
  | fixed64 {id : UInt32} {v : UInt64} :
    ToldBy ⟨id, .fixed64 v⟩
      (.named ("field_" ++ toString id.toNat ++ "_assuming_double") (.real v))

lemma Field.toldBy_iff {f : Field} {record : ArgRecord} :
    f.ToldBy record ↔ record = .ofArg (untypedArg f) := by
  constructor
  · intro h
    cases h <;> rfl
  · rintro rfl
    obtain ⟨id, value⟩ := f
    cases value with
    | varint v => exact .varint
    | fixed64 v => exact .fixed64
    | lengthDelimited b => exact .lengthDelimited
    | fixed32 v => exact .fixed32

/-- What is told of bytes of unknown type: one argument for each field that a reader hands out of
them, in this order. -/
def ToldFrom (b : Bytes) (records : List ArgRecord) : Prop :=
  ∃ fs last, Yields Reader.next (Reader.ofBytes b) fs last ∧ List.Forall₂ Field.ToldBy fs records

/-- What is told of bytes is determined by them, and is what reading them without a type gives. -/
theorem toldFrom_iff {b : Bytes} {records : List ArgRecord} :
    ToldFrom b records ↔ records = (untypedArgs b).map ArgRecord.ofArg := by
  have htold : ∀ fs, List.Forall₂ Field.ToldBy fs records ↔
      records = (fs.map untypedArg).map ArgRecord.ofArg := by
    intro fs
    have heq : Field.ToldBy = fun f record => ArgRecord.ofArg (untypedArg f) = record :=
      funext fun f => funext fun record => propext (Field.toldBy_iff.trans eq_comm)
    rw [heq, List.map_map, @eq_comm _ records, ← List.forall₂_eq_eq_eq,
      List.forall₂_map_left_iff]
    rfl
  constructor
  · rintro ⟨fs, last, hyields, hfields⟩
    obtain ⟨rfl, -⟩ := hyields.unique (Reader.yields_scan b)
    exact (htold _).mp hfields
  · exact fun h => ⟨_, _, Reader.yields_scan b, (htold _).mpr h⟩

/-! ### What is read of a payload -/

namespace AtomPayload

/-- The first field is length-delimited and well-formed: what is in it is read, whatever follows. -/
lemma body_of_spelled {id : UInt32} {content front : Bytes}
    (h : Field.SpelledBy ⟨id, .lengthDelimited content⟩ front) (rest : Bytes) :
    body (front ++ rest) = content := by
  rw [body, scan_of_read (h.read_append rest)]
  rfl

/-- There is no such first field: the whole payload is read. -/
lemma body_of_not_spelled {payload : Bytes}
    (h : ∀ id content front rest, payload = front ++ rest →
      ¬ Field.SpelledBy ⟨id, .lengthDelimited content⟩ front) : body payload = payload := by
  rw [body]
  split
  · next id content hhead =>
    by_cases hnil : payload = []
    · rw [hnil, scan_nil] at hhead
      cases hhead
    · cases hr : Field.read payload with
      | error left =>
          rw [scan_of_read_error hnil hr] at hhead
          cases hhead
      | ok found =>
          rw [scan_of_read hr, Scan.cons, List.head?_cons] at hhead
          obtain ⟨front, hsplit, hfront⟩ := Field.spelledBy_of_read hr
          rw [Option.some.inj hhead] at hfront
          exact absurd hfront (h id content front found.2 hsplit)
  · rfl

end AtomPayload

namespace AtomSchema

variable {schema : AtomSchema} {payload : Bytes}

/-- No declared type is known for the atom. -/
def LeavesUntyped (schema : AtomSchema) (payload : Bytes) : Prop :=
  schema.lookup (AtomPayload.id payload) = .unknown ∨
    schema.lookup (AtomPayload.id payload) = .noSchema

lemma LeavesUntyped.args_eq (h : schema.LeavesUntyped payload) :
    schema.args payload = untypedArgs (AtomPayload.body payload) := by
  rcases h with h | h <;> simp only [args, h]

/-- Nothing is counted but what the id is counted for: reading without a type is no error. -/
lemma LeavesUntyped.unknownGrowth_eq (h : schema.LeavesUntyped payload) :
    schema.unknownGrowth payload false =
      if schema.lookup (AtomPayload.id payload) = .noSchema ∨
        AtomPayload.id payload < vendorAtomIdStart then 1 else 0 := by
  rcases h with h | h <;> simp [unknownGrowth, h]

/-- Reading without a type reports no error. -/
lemma LeavesUntyped.decode_error (h : schema.LeavesUntyped payload) :
    (AtomImporter.decode schema (schema.routeOf (AtomPayload.id payload)) payload
      (firstField? payload)).error = none := by
  rcases h with h | h <;> simp [routeOf, h, AtomImporter.decode, ArgsResult.ofArgs]

end AtomSchema

/-! ### The slice of an atom without a declared type -/

namespace AtomImporter

variable {i : AtomImporter} {context : Context} {schema : AtomSchema} {trackName : String}

lemma parse_of_atoms_eq {sorted : SortedPacket} {payload : Bytes}
    (hfield : sorted.field = PacketField.statsdAtom)
    (hatoms : (Batch.decode (sorted.packet.statsd.getD [])).atoms = [payload])
    (i : AtomImporter) (t : Timeline) : i.parse t sorted = i.parseAtom t sorted.ts payload := by
  rw [parse, if_neg (by simpa using hfield)]
  simp only [hatoms]

/-- What is behind the rows that showed some atoms shows the one more. -/
lemma Recorded.shows_added {i' : AtomImporter} {t t' : Timeline} {atoms : List StampedAtom}
    {atom : StampedAtom} (h : i.Recorded t schema trackName atoms)
    (hnext : i'.Recorded t' schema trackName (atoms ++ [atom])) {row : SliceRow}
    {rows : List ArgRow} (hslices : t'.storage.slices = t.storage.slices.push row)
    (hargs : t'.storage.args = t.storage.args ++ rows.toArray) :
    row.Shows t'.storage.strings schema (atom, t.storage.slices.size) ∧
      List.Forall₂ (fun row arg =>
        row.Shows t'.storage.strings (.ofPlace t.storage.slices.size) arg) rows
        (schema.args atom.2) := by
  have hrow := hnext.slices
  rw [Storage.ShowsSlices, hslices, Array.toList_push, List.zipIdx_append] at hrow
  have hrows := hnext.args
  rw [Storage.ShowsArgs, hargs, Array.toList_append, slicedArgs_append_singleton] at hrows
  have hrow := List.forall₂_drop_append _ _ _ hrow
  have hrows := List.forall₂_drop_append _ _ _ hrows
  rw [← h.slices.length_eq, List.drop_left] at hrow
  rw [← h.args.length_eq, List.drop_left, List.forall₂_map_right_iff] at hrows
  rw [h.slices.size]
  exact ⟨by simpa using hrow, hrows⟩

/-- An atom that is not refused adds one slice to those there are, and arguments behind the others,
as the schema says of it. -/
lemma Reached.parseAtom_accepted (h : Reached schema trackName i context) {ts : Int64}
    (haccepted : ∀ row ∈ context.timeline.storage.slices, ¬ ts < row.ts) (payload : Bytes) :
    ∃ i' t' row rows, i.parseAtom context.timeline ts payload = (none, i', t') ∧
      t'.storage.slices = context.timeline.storage.slices.push row ∧
      t'.storage.args = context.timeline.storage.args ++ rows.toArray ∧
      row.Shows t'.storage.strings schema ((ts, payload), context.timeline.storage.slices.size) ∧
      List.Forall₂ (fun row arg => row.Shows t'.storage.strings
        (.ofPlace context.timeline.storage.slices.size) arg) rows (schema.args payload) ∧
      (t'.storage.Fits → t'.storage.records = context.timeline.storage.records ++
        [schema.record trackName ((ts, payload), context.timeline.storage.slices.size)]) ∧
      t'.storage.counters.get .atomUnknown =
        context.timeline.storage.counters.get .atomUnknown +
          schema.unknownGrowth payload false := by
  obtain ⟨atoms, hrecorded, htime⟩ := h.recorded
  have hrefuses : refuses atoms ts = false := by
    rw [Bool.eq_false_iff, ne_eq, refuses_iff_slices htime hrecorded.slices]
    rintro ⟨row, hrow, hlt⟩
    exact haccepted row hrow hlt
  obtain ⟨i', t', hparse, hnext, ⟨⟨row, hslices⟩, ⟨rows, hargs⟩, hstrings⟩, hcounters⟩ :=
    hrecorded.parseAtom_of_accepted hrefuses payload
  obtain ⟨hrow, hrows⟩ := hrecorded.shows_added hnext hslices hargs
  refine ⟨i', t', row, rows, hparse, hslices, hargs, hrow, hrows, fun hfits => ?_,
    hcounters .atomUnknown⟩
  have hbefore : context.timeline.storage.Fits := by
    refine ⟨hstrings.trans hfits.strings, ?_⟩
    have hle := hfits.slices
    rw [hslices, Array.size_push] at hle
    omega
  rw [hnext.records_eq hfits, hrecorded.records_eq hbefore, List.zipIdx_append, List.map_append,
    Nat.zero_add, hrecorded.slices.size]
  rfl

end AtomImporter

end AtomTimeline
