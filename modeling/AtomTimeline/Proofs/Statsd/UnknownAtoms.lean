import AtomTimeline.Proofs.Args.Walk
import AtomTimeline.Proofs.Schema.BuiltPools
import AtomTimeline.Proofs.Statsd.Splitting

/-!
How an atom is counted that the schema cannot decode.

* `Pool.findMessage?_of_unknownMessage`: reading complains only of types that are not known.
* `AtomSchema.routeOf_zero_ne`: no atom without an id is decoded by a schema whose pool was built.
* `AtomImporter.Reached` are the states an importer and its context come to while packets are
  offered and handed back in any order. `AtomImporter.Reached.recorded`: in each of them the tables
  show the atoms recorded so far, in the order of their timestamps.
* `AtomImporter.Reached.parse_singleton`: so, whatever came before, a packet of one atom is counted
  as the schema says of the atom, and never twice.
-/

namespace AtomTimeline

/-! ### Types that are not known -/

namespace Pool

variable {pool : Pool} {name : String}

section

variable {nested : Bytes → String → Key → List Finding}
  (hnested : ∀ b typeName under, .error (.unknownMessage name) ∈ nested b typeName under →
    pool.findMessage? name = none)
include hnested

lemma findMessage?_of_mem_walkValue {d : FieldDescriptor} {key : Key} {v : FieldValue}
    (h : .error (.unknownMessage name) ∈ pool.walkValue nested d key v) :
    pool.findMessage? name = none := by
  unfold walkValue at h
  split at h
  · exact hnested _ _ _ h
  · split at h <;> simp at h

lemma findMessage?_of_mem_walkFields {m : MessageDescriptor} {under : Key}
    {earlier : List UInt32} {fs : List Field}
    (h : .error (.unknownMessage name) ∈ pool.walkFields nested m under earlier fs) :
    pool.findMessage? name = none := by
  induction fs generalizing earlier with
  | nil => cases h
  | cons f fs ih =>
      rw [walkFields] at h
      cases hfield : m.field? f.id with
      | none =>
          rw [hfield] at h
          exact ih h
      | some d =>
          rw [hfield] at h
          rcases List.mem_append.mp h with h | h
          · rw [walkField] at h
            split at h
            · simp at h
            · obtain ⟨e, -, he⟩ := List.mem_flatMap.mp h
              exact findMessage?_of_mem_walkValue hnested he
          · exact ih h

end

/-- A type of which the walk complains is not known. The induction is on the levels left. -/
lemma findMessage?_of_mem_walk {levels : ℕ} {b : Bytes} {typeName : String} {under : Key}
    (h : .error (.unknownMessage name) ∈ pool.walk levels b typeName under) :
    pool.findMessage? name = none := by
  induction levels generalizing b typeName under with
  | zero => simp [walk] at h
  | succ levels ih =>
      rw [walk] at h
      split at h
      · next hnone =>
        simp only [List.mem_singleton, Except.error.injEq, ArgsError.unknownMessage.injEq] at h
        rwa [h]
      · rcases List.mem_append.mp h with h | h
        · exact findMessage?_of_mem_walkFields (fun _ _ _ hmem => ih hmem) h
        · split at h <;> simp at h

/-- A type of which reading complains is not known. -/
theorem findMessage?_of_unknownMessage {b : Bytes} {typeName : String}
    (h : (pool.parseMessage b typeName).error = some (.unknownMessage name)) :
    pool.findMessage? name = none := by
  rw [parseMessage, parseMessageAt_eq_walk] at h
  obtain ⟨found, hmem, hfault⟩ := List.exists_of_findSome?_eq_some h
  cases found with
  | ok arg => cases hfault
  | error e =>
      cases hfault
      exact findMessage?_of_mem_walk hmem

end Pool

/-! ### Routes -/

namespace AtomSchema

variable {schema : AtomSchema} {id : UInt32}

/-- The schema decodes atoms only if it knows their message. -/
lemma atom?_ne_none_of_route (h : schema.routeOf id = .schema) : schema.atom? ≠ none := by
  intro hnone
  rw [routeOf, lookup, hnone] at h
  cases h

/-- **Atoms without an id** are never decoded by a schema whose pool was built: no field of a built
pool has the number zero. -/
theorem routeOf_zero_ne (h : schema.pool.Built) : schema.routeOf 0 ≠ .schema := by
  intro hroute
  cases hatom : schema.atom? with
  | none => exact atom?_ne_none_of_route hroute hatom
  | some atom =>
      have hinorder := h.inOrder atom (Pool.mem_messages_of_findMessage? hatom)
      cases hfield : atom.field? 0 with
      | none => simp [routeOf, lookup, hatom, hfield] at hroute
      | some f =>
          exact hinorder.ne_zero f (List.mem_of_find?_eq_some hfield)
            (by simpa using List.find?_some hfield)

/-- An atom on the route of the schema is of a message that is known. -/
theorem parseAtom_error_ne (h : schema.routeOf id = .schema) (payload : Bytes) :
    (schema.parseAtom payload).error ≠ some (.unknownMessage schema.atomMessageName) :=
  fun herror => atom?_ne_none_of_route h (Pool.findMessage?_of_unknownMessage herror)

/-- An atom is counted as unknown at most once. -/
lemma unknownGrowth_eq_zero_or_one (schema : AtomSchema) (payload : Bytes) (refused : Bool) :
    schema.unknownGrowth payload refused = 0 ∨ schema.unknownGrowth payload refused = 1 := by
  rw [unknownGrowth]
  split
  · exact .inr rfl
  · split
    · exact .inl rfl
    · split
      · exact .inr rfl
      · exact .inl rfl
  · split
    · exact .inl rfl
    · split
      · exact .inr rfl
      · exact .inl rfl

end AtomSchema

/-! ### States of the importer -/

namespace AtomImporter

/-- The states an importer of atoms and its context come to: packets are offered and handed back in
any order, queued packets are taken out, and what meets the packets counts. -/
inductive Reached (schema : AtomSchema) (trackName : String) : AtomImporter → Context → Prop where
  | initial : Reached schema trackName (ofSchema schema trackName) .initial
  | tokenize {i : AtomImporter} {context : Context} (offer : PacketOffer) :
    Reached schema trackName i context →
      Reached schema trackName i (AtomImporter.tokenize context offer).2
  | parse {i : AtomImporter} {context : Context} (sorted : SortedPacket) :
    Reached schema trackName i context →
      Reached schema trackName (i.parse context.timeline sorted).2.1
        { context with timeline := (i.parse context.timeline sorted).2.2 }
  | pop {i : AtomImporter} {context : Context} {p : TimedPacket} {rest : Sorter} :
    context.sorter.pop? = some (p, rest) → Reached schema trackName i context →
      Reached schema trackName i { context with sorter := rest }
  | count {i : AtomImporter} {context : Context} (stat : Stat) :
    Reached schema trackName i context →
      Reached schema trackName i { context with timeline := context.timeline.count stat }

variable {i : AtomImporter} {t : Timeline} {context : Context} {schema : AtomSchema}
  {trackName : String} {atoms : List StampedAtom}

/-- A packet handed back is not the importer's, does not hold just one atom, or is recorded. -/
lemma parse_cases (i : AtomImporter) (t : Timeline) (sorted : SortedPacket) :
    (i.parse t sorted).2 = (i, t) ∨
      ∃ payload, i.parse t sorted = i.parseAtom t sorted.ts payload := by
  rw [parse]
  split
  · exact .inl rfl
  · split
    · exact .inr ⟨_, rfl⟩
    · exact .inl rfl

/-- **In every state** the tables show the atoms recorded so far, in the order of their
timestamps. -/
theorem Reached.recorded (h : Reached schema trackName i context) :
    ∃ atoms, i.Recorded context.timeline schema trackName atoms ∧ InTime Prod.fst atoms := by
  induction h with
  | initial => exact ⟨[], recorded_initial schema trackName, .nil⟩
  | @tokenize i context offer _ ih =>
      obtain ⟨atoms, hrecorded, htime⟩ := ih
      obtain ⟨counters, hcounters⟩ := timeline_tokenize context offer
      rw [hcounters]
      exact ⟨atoms, hrecorded.setCounters counters, htime⟩
  | @parse i context sorted _ ih =>
      obtain ⟨atoms, hrecorded, htime⟩ := ih
      rcases parse_cases i context.timeline sorted with hsame | ⟨payload, hparse⟩
      · rw [hsame]
        exact ⟨atoms, hrecorded, htime⟩
      · obtain ⟨i', t', heq, hnext, -⟩ := hrecorded.parseAtom sorted.ts payload
        rw [hparse, heq]
        exact ⟨_, hnext, inTime_recordNext htime _⟩
  | pop _ _ ih => exact ih
  | count stat _ ih =>
      obtain ⟨atoms, hrecorded, htime⟩ := ih
      exact ⟨atoms, hrecorded.setCounters _, htime⟩

/-! ### Counting an atom -/

/-- The route on which the importer decodes an atom, remembered or asked for. -/
def routeFor (i : AtomImporter) (t : Timeline) (payload : Bytes) : AtomRoute :=
  (i.names.resolve i.schema t.storage (AtomPayload.id payload)).1.route

/-- A route that is remembered is the one the schema would give. -/
lemma Recorded.routeFor_eq (h : i.Recorded t schema trackName atoms) (payload : Bytes) :
    i.routeFor t payload = schema.routeOf (AtomPayload.id payload) := by
  obtain ⟨name, known, strings, counters, hresolve, -⟩ :=
    h.toRecording.resolve (AtomPayload.id payload)
  rw [routeFor, hresolve]

/-- **How an atom is counted.** In every state the importer comes to, a packet of one atom fails no
check and is counted as unknown just as often as the schema says of the atom and of whether its
slice is refused, and at most once. It is refused if it starts before some slice in the table; then
no slice, argument or track is added. An atom without an id is not decoded by a schema whose pool
was built, and one that the schema decodes is of a message that is known. -/
theorem Reached.parse_singleton (h : Reached schema trackName i context) {sorted : SortedPacket}
    {payload : Bytes} (hfield : sorted.field = PacketField.statsdAtom)
    (hatoms : (Batch.decode (sorted.packet.statsd.getD [])).atoms = [payload]) :
    ∃ i' t' refused, i.parse context.timeline sorted = (none, i', t') ∧
      (refused = true ↔ ∃ row ∈ context.timeline.storage.slices, sorted.ts < row.ts) ∧
      t'.storage.counters.get .atomUnknown =
        context.timeline.storage.counters.get .atomUnknown +
          schema.unknownGrowth payload refused ∧
      (t'.storage.counters.get .atomUnknown = context.timeline.storage.counters.get .atomUnknown ∨
        t'.storage.counters.get .atomUnknown =
          context.timeline.storage.counters.get .atomUnknown + 1) ∧
      (refused = true →
        t'.storage.slices = context.timeline.storage.slices ∧
        t'.storage.args = context.timeline.storage.args ∧
        t'.storage.tracks = context.timeline.storage.tracks) ∧
      (refused = false →
        t'.storage.slices.size = context.timeline.storage.slices.size + 1) ∧
      (schema.pool.Built → AtomPayload.id payload = 0 →
        i.routeFor context.timeline payload ≠ .schema) ∧
      (i.routeFor context.timeline payload = .schema →
        (schema.parseAtom payload).error ≠ some (.unknownMessage schema.atomMessageName)) := by
  obtain ⟨atoms, hrecorded, htime⟩ := h.recorded
  obtain ⟨i', t', heq, hnext, hcounters, hrefused⟩ := hrecorded.parseAtom sorted.ts payload
  have hparse : i.parse context.timeline sorted = (none, i', t') := by
    rw [AtomImporter.parse, if_neg (by simpa using hfield)]
    simp only [hatoms, heq]
  have hroute := hrecorded.routeFor_eq payload
  refine ⟨i', t', refuses atoms sorted.ts, hparse, refuses_iff_slices htime hrecorded.slices _,
    hcounters .atomUnknown, ?_, fun hr => ?_, fun hr => ?_, fun hbuilt hid => ?_, fun hschema => ?_⟩
  · rw [hcounters .atomUnknown, AtomSchema.growth]
    rcases schema.unknownGrowth_eq_zero_or_one payload (refuses atoms sorted.ts) with hg | hg
    · exact .inl (by rw [hg, Int64.add_zero])
    · exact .inr (by rw [hg])
  · obtain ⟨strings, counters, rfl⟩ := hrefused hr
    exact ⟨rfl, rfl, rfl⟩
  · rw [hnext.slices.size, hrecorded.slices.size, recordNext, if_neg (by simp [hr]),
      List.length_append, List.length_singleton]
  · rw [hroute, hid]
    exact AtomSchema.routeOf_zero_ne hbuilt
  · exact AtomSchema.parseAtom_error_ne (hroute ▸ hschema) payload

/-- Without a schema the first atom is counted, whatever it is. -/
theorem parse_singleton_of_missing :
    let sorted : SortedPacket :=
      ⟨PacketView.decode (singletonPacket 5 [8, 1]), 5, PacketField.statsdAtom⟩
    (Batch.decode (sorted.packet.statsd.getD [])).atoms = [[8, 1]] ∧
      ∃ i' t', (ofSchema .missing defaultTrackName).parse .initial sorted = (none, i', t') ∧
        t'.storage.counters.get .atomUnknown = 1 := by
  have hholds : TimedPacket.HoldsAtom ⟨5, ⟨0, 0⟩, singletonPacket 5 [8, 1]⟩ [8, 1] :=
    ⟨fitsBatch_of_length_lt (by decide), rfl⟩
  have hreached : Reached .missing defaultTrackName (ofSchema .missing defaultTrackName) .initial :=
    .initial
  have hfield : (⟨PacketView.decode (singletonPacket 5 [8, 1]), 5, PacketField.statsdAtom⟩ :
      SortedPacket).field = PacketField.statsdAtom := rfl
  obtain ⟨i', t', refused, hparse, -, hgrowth, -⟩ := hreached.parse_singleton hfield hholds.atoms_eq
  exact ⟨hholds.atoms_eq, i', t', hparse, hgrowth⟩

end AtomImporter

end AtomTimeline
