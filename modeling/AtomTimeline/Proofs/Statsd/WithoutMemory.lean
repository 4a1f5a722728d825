import AtomTimeline.Proofs.Statsd.Splitting

/-!
What the importer of atoms remembers cannot be seen in the tables.

* `AtomImporter.recordAfresh` puts an atom on the timeline without any memory: the schema is asked
  for the id, and the name and the track are asked for by their strings, each time.
* `Timeline.Keeps`: a string that has a number and a name that has a track keep them, whatever is
  done to the timeline.
* `AtomImporter.Knows`: so what the importer remembers stays what it would be told.
  `AtomImporter.Knows.parseAtom` is the step, `AtomImporter.parseEach_eq_recordAfresh` the run, from
  any timeline on; it also says how often the schema was asked.
-/

namespace AtomTimeline

/-! ### Recording without memory -/

/-- The track with a name, the name being given as a string. -/
def Timeline.trackUnder (t : Timeline) (s : String) : TrackId × Timeline :=
  let (name, t) := t.intern s
  t.globalTrack name

/-- The number of the name under an id. Each time the schema is missing, this is counted. -/
def AtomSchema.nameUnder (schema : AtomSchema) (t : Timeline) (id : UInt32) :
    StringId × Timeline :=
  let t := if schema.routeOf id = .noSchema then t.count .atomUnknown else t
  t.intern (schema.titleOf id)

namespace AtomImporter

/-- Puts the slice of an atom on a track, with the arguments. -/
def showAtom (schema : AtomSchema) (t : Timeline) (ts : Int64) (track : TrackId) (name : StringId)
    (payload : Bytes) : Timeline :=
  let id := AtomPayload.id payload
  match t.addSlice ts track .empty name 0 with
  | (none, t) => t
  | (some slice, t) =>
    let t :=
      if schema.routeOf id = .unknown ∧ id < vendorAtomIdStart then t.count .atomUnknown else t
    let result := decode schema (schema.routeOf id) payload (firstField? payload)
    let t := t.mapStorage (·.insertArgs slice result.args)
    if result.error.isSome then t.count .atomUnknown else t

/-- Puts an atom on the timeline, remembering nothing from one atom to the next. -/
def recordAfresh (schema : AtomSchema) (trackName : String) (t : Timeline) (ts : Int64)
    (payload : Bytes) : Timeline :=
  let (name, t) := schema.nameUnder t (AtomPayload.id payload)
  let (track, t) := t.trackUnder trackName
  showAtom schema t ts track name payload

/-- Hands packets to an importer one after the other, up to a check that fails. -/
def parseEach (i : AtomImporter) (t : Timeline) :
    List SortedPacket → Option FatalCheck × AtomImporter × Timeline
  | [] => (none, i, t)
  | sorted :: packets =>
    match i.parse t sorted with
    | (some fatal, i, t) => (some fatal, i, t)
    | (none, i, t) => i.parseEach t packets

end AtomImporter

/-- A packet that is handed back with exactly one atom in it. -/
structure OneAtomPacket where
  sorted : SortedPacket
  payload : Bytes
  field_eq : sorted.field = PacketField.statsdAtom
  atoms_eq : (Batch.decode (sorted.packet.statsd.getD [])).atoms = [payload]

namespace OneAtomPacket

/-- A queued packet that holds an atom, as it is handed back. -/
def ofHoldsAtom {p : TimedPacket} {payload : Bytes} (h : p.HoldsAtom payload) : OneAtomPacket where
  sorted := ⟨PacketView.decode p.blob, p.ts, PacketField.statsdAtom⟩
  payload := payload
  field_eq := rfl
  atoms_eq := h.atoms_eq

/-- The id of the atom. -/
def atomId (p : OneAtomPacket) : UInt32 := AtomPayload.id p.payload

lemma parse_eq (p : OneAtomPacket) (i : AtomImporter) (t : Timeline) :
    i.parse t p.sorted = i.parseAtom t p.sorted.ts p.payload := by
  rw [AtomImporter.parse, if_neg (by simp [p.field_eq])]
  simp only [p.atoms_eq]

end OneAtomPacket

/-! ### What a timeline keeps -/

/-- Every string is still listed under its number, and every name has its track. -/
structure Timeline.Keeps (t after : Timeline) : Prop where
  strings : t.storage.strings.Keeps after.storage.strings
  tracks : ∀ (name : StringId) (track : TrackId), t.globalTracks[name]? = some track →
    after.globalTracks[name]? = some track

namespace Timeline

variable {t : Timeline}

lemma Keeps.refl (t : Timeline) : t.Keeps t := ⟨.refl _, fun _ _ h => h⟩

lemma Keeps.trans {mid after : Timeline} (h : t.Keeps mid) (h' : mid.Keeps after) :
    t.Keeps after :=
  ⟨h.strings.trans h'.strings, fun name track hname =>
    h'.tracks name track (h.tracks name track hname)⟩

lemma keeps_intern (t : Timeline) (s : String) : t.Keeps (t.intern s).2 :=
  ⟨StringPool.keeps_intern _ s, fun _ _ h => h⟩

lemma keeps_ite_count (p : Prop) [Decidable p] (t : Timeline) (stat : Stat) :
    t.Keeps (if p then t.count stat else t) := by
  split
  · exact ⟨.refl _, fun _ _ h => h⟩
  · exact .refl t

/-- A name that was asked for has the track that was given. -/
lemma globalTracks_globalTrack (t : Timeline) (name : StringId) :
    (t.globalTrack name).2.globalTracks[name]? = some (t.globalTrack name).1 := by
  rw [globalTrack]
  cases htrack : t.globalTracks[name]? with
  | some track => exact htrack
  | none => exact Std.HashMap.getElem?_insert_self

lemma keeps_globalTrack (t : Timeline) (name : StringId) : t.Keeps (t.globalTrack name).2 := by
  rw [globalTrack]
  cases htrack : t.globalTracks[name]? with
  | some track => exact .refl t
  | none =>
      refine ⟨.refl _, fun other track hother => ?_⟩
      have hne : ¬ name = other := by
        rintro rfl
        rw [htrack] at hother
        cases hother
      simp only [Std.HashMap.getElem?_insert, beq_iff_eq, hne, if_false, hother]

lemma globalTrack_of_known {name : StringId} {track : TrackId}
    (h : t.globalTracks[name]? = some track) : t.globalTrack name = (track, t) := by
  rw [globalTrack, h]

lemma keeps_trackUnder (t : Timeline) (s : String) : t.Keeps (t.trackUnder s).2 :=
  (keeps_intern t s).trans (keeps_globalTrack _ _)

/-- A string for which a track was asked is listed, and its number has the track. -/
lemma trackUnder_known (t : Timeline) (s : String) :
    ∃ name : StringId, (t.trackUnder s).2.storage.strings.Numbers name s ∧
      (t.trackUnder s).2.globalTracks[name]? = some (t.trackUnder s).1 :=
  ⟨_, (keeps_globalTrack _ _).strings.numbers (StringPool.numbers_intern _ s),
    globalTracks_globalTrack _ _⟩

lemma trackUnder_of_known {s : String} {name : StringId} {track : TrackId}
    (hname : t.storage.strings.Numbers name s)
    (htrack : t.globalTracks[name]? = some track) : t.trackUnder s = (track, t) := by
  have hintern : t.intern s = (name, t) := by
    rw [intern, Storage.intern_eq, StringPool.intern_of_known hname]
  simp only [trackUnder, hintern, globalTrack_of_known htrack]

lemma keeps_addSlice (t : Timeline) (ts : Int64) (track : TrackId) (category name : StringId)
    (dur : Int64) : t.Keeps (t.addSlice ts track category name dur).2 := by
  rw [addSlice]
  split <;> exact ⟨.refl _, fun _ _ h => h⟩

end Timeline

/-! ### What is remembered -/

namespace AtomSchema

lemma ask_eq_nameUnder (schema : AtomSchema) (t : Timeline) (id : UInt32) :
    NameCache.ask schema t.storage id =
      (⟨(schema.nameUnder t id).1, schema.routeOf id⟩, decide (schema.routeOf id ≠ .noSchema),
        (schema.nameUnder t id).2.storage) := by
  rw [NameCache.ask_eq, nameUnder, NameCache.countMissing]
  split <;> rfl

/-- Asking for a name changes the tables alone. -/
lemma with_storage_nameUnder (schema : AtomSchema) (t : Timeline) (id : UInt32) :
    { t with storage := (schema.nameUnder t id).2.storage } = (schema.nameUnder t id).2 := by
  rw [nameUnder]
  split <;> rfl

lemma keeps_nameUnder (schema : AtomSchema) (t : Timeline) (id : UInt32) :
    t.Keeps (schema.nameUnder t id).2 :=
  (Timeline.keeps_ite_count _ t .atomUnknown).trans (Timeline.keeps_intern _ _)

/-- Of a schema without the message of atoms, no id has another route than that. -/
lemma routeOf_eq_noSchema_iff (schema : AtomSchema) (id : UInt32) :
    schema.routeOf id = .noSchema ↔ schema.atom? = none := by
  rw [routeOf, lookup]
  cases schema.atom? with
  | none => simp
  | some atom => cases hfield : atom.field? id <;> simp [hfield]

end AtomSchema

namespace NameCache

variable {cache : NameCache} {schema : AtomSchema} {seen : List UInt32}

/-- How often the schema was asked for the ids that were seen, and which of them are remembered:
each one once it was asked for, or none for want of a schema. -/
structure AskedFor (cache : NameCache) (schema : AtomSchema) (seen : List UInt32) : Prop where
  mem_iff : ∀ id : UInt32, id ∈ cache.entries ↔ id ∈ seen ∧ schema.atom? ≠ none
  lookups_eq : cache.lookups = if schema.atom? = none then seen.length else seen.toFinset.card

lemma askedFor_empty (schema : AtomSchema) : empty.AskedFor schema [] where
  mem_iff id := by simp [empty]
  lookups_eq := by simp [empty]

/-- An id that was seen before is not one more. -/
lemma AskedFor.seenBefore (h : cache.AskedFor schema seen) {id : UInt32} (hseen : id ∈ seen)
    (hatom : schema.atom? ≠ none) : cache.AskedFor schema (seen ++ [id]) where
  mem_iff other := by
    rw [h.mem_iff, List.mem_append, List.mem_singleton]
    refine and_congr_left fun _ => ⟨.inl, fun hother => ?_⟩
    rcases hother with hother | rfl
    · exact hother
    · exact hseen
  lookups_eq := by
    rw [h.lookups_eq, if_neg hatom, if_neg hatom, List.toFinset_append, List.toFinset_cons,
      List.toFinset_nil, insert_empty_eq, Finset.union_singleton,
      Finset.insert_eq_of_mem (List.mem_toFinset.mpr hseen)]

/-- An id that was not seen before is asked for once, and remembered. -/
lemma AskedFor.askedOnce (h : cache.AskedFor schema seen) {id : UInt32} (hseen : id ∉ seen)
    (hatom : schema.atom? ≠ none) (atom : ResolvedAtom) :
    AskedFor ⟨cache.entries.insert id atom, cache.lookups + 1⟩ schema (seen ++ [id]) where
  mem_iff other := by
    rw [Std.HashMap.mem_insert, h.mem_iff, List.mem_append, List.mem_singleton, beq_iff_eq,
      and_iff_left hatom, and_iff_left hatom, or_comm, eq_comm]
  lookups_eq := by
    rw [h.lookups_eq, if_neg hatom, if_neg hatom, List.toFinset_append, List.toFinset_cons,
      List.toFinset_nil, insert_empty_eq, Finset.union_singleton,
      Finset.card_insert_of_notMem (mt List.mem_toFinset.mp hseen)]

/-- While the schema is missing, it is asked for every atom. -/
lemma AskedFor.askedAgain (h : cache.AskedFor schema seen) (id : UInt32)
    (hatom : schema.atom? = none) :
    AskedFor ⟨cache.entries, cache.lookups + 1⟩ schema (seen ++ [id]) where
  mem_iff other := by simp [h.mem_iff, hatom]
  lookups_eq := by
    rw [h.lookups_eq, if_pos hatom, if_pos hatom, List.length_append, List.length_singleton]

/-- Resolving one more id asks for it, unless it is remembered. -/
theorem AskedFor.resolve (h : cache.AskedFor schema seen) (st : Storage) (id : UInt32) :
    (cache.resolve schema st id).2.1.AskedFor schema (seen ++ [id]) := by
  by_cases hknown : id ∈ cache.entries
  · obtain ⟨hseen, hatom⟩ := (h.mem_iff id).mp hknown
    rw [resolve_of_known (Std.HashMap.getElem?_eq_some_getElem hknown)]
    exact h.seenBefore hseen hatom
  · rw [resolve_of_new (Std.HashMap.getElem?_eq_none hknown)]
    by_cases hatom : schema.atom? = none
    · rw [if_pos ((schema.routeOf_eq_noSchema_iff id).mpr hatom)]
      exact h.askedAgain id hatom
    · have hseen : id ∉ seen := fun hseen => hknown ((h.mem_iff id).mpr ⟨hseen, hatom⟩)
      rw [if_neg (mt (schema.routeOf_eq_noSchema_iff id).mp hatom)]
      exact h.askedOnce hseen hatom _

end NameCache

namespace AtomImporter

variable {i : AtomImporter} {schema : AtomSchema} {trackName : String} {t : Timeline}

/-- What the importer remembers is what it would be told. -/
structure Knows (i : AtomImporter) (schema : AtomSchema) (trackName : String) (t : Timeline) :
    Prop where
  schema_eq : i.schema = schema
  trackName_eq : i.trackName = trackName
  names : i.names.Remembers schema t.storage.strings
  track : ∀ track, i.track = some track →
    ∃ name : StringId, t.storage.strings.Numbers name trackName ∧
      t.globalTracks[name]? = some track

lemma knows_ofSchema (schema : AtomSchema) (trackName : String) (t : Timeline) :
    (ofSchema schema trackName).Knows schema trackName t where
  schema_eq := rfl
  trackName_eq := rfl
  names := NameCache.remembers_empty _ _
  track := by simp [ofSchema]

lemma Knows.keep (h : i.Knows schema trackName t) {after : Timeline} (hkeeps : t.Keeps after) :
    i.Knows schema trackName after where
  schema_eq := h.schema_eq
  trackName_eq := h.trackName_eq
  names := h.names.mono hkeeps.strings
  track track htrack := by
    obtain ⟨name, hname, hglobal⟩ := h.track track htrack
    exact ⟨name, hkeeps.strings.numbers hname, hkeeps.tracks _ _ hglobal⟩

/-- **The track is the one that would be asked for**, whether it is remembered or not. -/
theorem Knows.internTrack (h : i.Knows schema trackName t) :
    ∃ next, i.internTrack t = ((t.trackUnder trackName).1, next, (t.trackUnder trackName).2) ∧
      next.Knows schema trackName (t.trackUnder trackName).2 ∧ next.names = i.names := by
  cases htrack : i.track with
  | some track =>
      obtain ⟨name, hname, hglobal⟩ := h.track track htrack
      rw [Timeline.trackUnder_of_known hname hglobal, internTrack_of_some htrack]
      exact ⟨i, rfl, h, rfl⟩
  | none =>
      refine ⟨{ i with track := some (t.trackUnder trackName).1 }, ?_, ?_, rfl⟩
      · simp only [AtomImporter.internTrack, htrack, h.trackName_eq]
        rfl
      · refine { h.keep (t.keeps_trackUnder trackName) with track := ?_ }
        rintro track ⟨⟩
        exact t.trackUnder_known trackName

lemma recordAfresh_eq (schema : AtomSchema) (trackName : String) (t : Timeline) (ts : Int64)
    (payload : Bytes) :
    recordAfresh schema trackName t ts payload =
      showAtom schema ((schema.nameUnder t (AtomPayload.id payload)).2.trackUnder trackName).2 ts
        ((schema.nameUnder t (AtomPayload.id payload)).2.trackUnder trackName).1
        (schema.nameUnder t (AtomPayload.id payload)).1 payload := rfl

lemma keeps_showAtom (schema : AtomSchema) (t : Timeline) (ts : Int64) (track : TrackId)
    (name : StringId) (payload : Bytes) : t.Keeps (showAtom schema t ts track name payload) := by
  have hadd := t.keeps_addSlice ts track .empty name 0
  rw [showAtom]
  split
  · next heq => rwa [heq] at hadd
  · next slice added heq =>
    rw [heq] at hadd
    dsimp only at hadd ⊢
    have hcounted := Timeline.keeps_ite_count (schema.routeOf (AtomPayload.id payload) = .unknown ∧
      AtomPayload.id payload < vendorAtomIdStart) added .atomUnknown
    refine ((hadd.trans hcounted).trans ?_).trans
      (Timeline.keeps_ite_count (Option.isSome _ = true) _ .atomUnknown)
    exact ⟨Storage.keeps_insertArgs _ slice _, fun _ _ h => h⟩

/-- What is left of recording an atom once its name and the track are known. -/
lemma parseAtom_of_known (ts : Int64) {payload : Bytes} {name : StringId} {known : NameCache}
    {named tracked : Timeline} {track : TrackId} {next : AtomImporter} (hschema : i.schema = schema)
    (hname : i.names.resolve schema t.storage (AtomPayload.id payload) =
      (⟨name, schema.routeOf (AtomPayload.id payload)⟩, known, named.storage))
    (hnamed : { t with storage := named.storage } = named)
    (htrack : internTrack { i with names := known } named = (track, next, tracked))
    (hnext : next.schema = schema) :
    i.parseAtom t ts payload = (none, next, showAtom schema tracked ts track name payload) := by
  subst hschema
  simp only [parseAtom, firstField_id, hname, hnamed, htrack, hnext, showAtom]
  cases hadd : tracked.addSlice ts track .empty name 0 with
  | mk place added =>
      cases place with
      | none => rfl
      | some slice =>
          simp only [recordArgs, Storage.insertOffers_map_arg]
          rfl

/-- **Recording an atom** with what is remembered puts the same on the timeline as recording it
afresh. -/
theorem Knows.parseAtom (h : i.Knows schema trackName t) (ts : Int64) (payload : Bytes) :
    ∃ next, i.parseAtom t ts payload = (none, next, recordAfresh schema trackName t ts payload) ∧
      next.Knows schema trackName (recordAfresh schema trackName t ts payload) ∧
      next.names = (i.names.resolve schema t.storage (AtomPayload.id payload)).2.1 := by
  obtain ⟨known, hresolve, hremembers⟩ := h.names.resolve (AtomPayload.id payload)
  have hnamed := schema.ask_eq_nameUnder t (AtomPayload.id payload)
  rw [hnamed] at hresolve hremembers
  have hkeeps := schema.keeps_nameUnder t (AtomPayload.id payload)
  have hknows : Knows { i with names := known } schema trackName
      (schema.nameUnder t (AtomPayload.id payload)).2 :=
    { h.keep hkeeps with names := hremembers }
  obtain ⟨next, htrack, hnext, hnames⟩ := hknows.internTrack
  have hparse := parseAtom_of_known ts h.schema_eq hresolve (schema.with_storage_nameUnder t _)
    htrack hnext.schema_eq
  rw [recordAfresh_eq]
  refine ⟨next, hparse, hnext.keep (keeps_showAtom _ _ _ _ _ _), ?_⟩
  rw [hnames, hresolve]

/-! ### Runs -/

/-- The timeline once the atoms of packets were recorded one after the other, without memory. -/
def recordEachAfresh (schema : AtomSchema) (trackName : String) (t : Timeline)
    (packets : List OneAtomPacket) : Timeline :=
  packets.foldl (fun t p => recordAfresh schema trackName t p.sorted.ts p.payload) t

/-- What holds of one packet holds of one after the other. -/
lemma Knows.parseEach {seen : List UInt32} (h : i.Knows schema trackName t)
    (hasked : i.names.AskedFor schema seen) (packets : List OneAtomPacket) :
    ∃ next, i.parseEach t (packets.map OneAtomPacket.sorted) =
        (none, next, recordEachAfresh schema trackName t packets) ∧
      next.names.AskedFor schema (seen ++ packets.map OneAtomPacket.atomId) := by
  induction packets generalizing i t seen with
  | nil => exact ⟨i, rfl, by rwa [List.map_nil, List.append_nil]⟩
  | cons p packets ih =>
      obtain ⟨mid, hparse, hmid, hnames⟩ := h.parseAtom p.sorted.ts p.payload
      have hmidAsked := hasked.resolve t.storage p.atomId
      rw [OneAtomPacket.atomId, ← hnames] at hmidAsked
      obtain ⟨next, heach, hnext⟩ := ih hmid hmidAsked
      refine ⟨next, ?_, ?_⟩
      · rw [List.map_cons, AtomImporter.parseEach, p.parse_eq, hparse]
        exact heach
      · rwa [List.append_assoc, List.singleton_append] at hnext

/-- **What is remembered cannot be seen.** Hand packets of one atom each to an importer that has
seen nothing, whatever is on the timeline: no check fails, and the timeline is what it would be if
each atom were recorded without memory. The schema is asked as often as there are different ids
among the atoms, and if it is missing, as often as there are atoms. -/
theorem parseEach_eq_recordAfresh (schema : AtomSchema) (trackName : String) (t : Timeline)
    (packets : List OneAtomPacket) :
    ∃ next, (ofSchema schema trackName).parseEach t (packets.map OneAtomPacket.sorted) =
        (none, next, recordEachAfresh schema trackName t packets) ∧
      next.names.lookups =
        if schema.atom? = none then packets.length
        else (packets.map OneAtomPacket.atomId).toFinset.card := by
  obtain ⟨next, heach, hasked⟩ := (knows_ofSchema schema trackName t).parseEach
    (NameCache.askedFor_empty schema) packets
  refine ⟨next, heach, ?_⟩
  rw [hasked.lookups_eq, List.nil_append, List.length_map]

/-- Three atoms, the first and the last with the same id: a schema that knows the message of atoms
is asked twice, a missing one three times. -/
theorem parseEach_of_repeated_id :
    ∃ packets : List OneAtomPacket, packets.map OneAtomPacket.payload = [[8, 1], [16, 1], [8, 2]] ∧
      (∃ next, (ofSchema ⟨⟨[⟨".Atom", []⟩], []⟩, ".Atom"⟩ defaultTrackName).parseEach .initial
          (packets.map OneAtomPacket.sorted) = (none, next,
            recordEachAfresh ⟨⟨[⟨".Atom", []⟩], []⟩, ".Atom"⟩ defaultTrackName .initial packets) ∧
        next.names.lookups = 2) ∧
      ∃ next, (ofSchema .missing defaultTrackName).parseEach .initial
          (packets.map OneAtomPacket.sorted) =
            (none, next, recordEachAfresh .missing defaultTrackName .initial packets) ∧
        next.names.lookups = 3 := by
  have hholds : ∀ payload : Bytes, payload.length < 128 →
      (timedAtom ⟨0, 0⟩ (5, payload)).HoldsAtom payload := fun payload hlength =>
    ⟨fitsBatch_of_length_lt hlength, rfl⟩
  obtain ⟨packets, hpayloads⟩ : ∃ packets : List OneAtomPacket,
      packets.map OneAtomPacket.payload = [[8, 1], [16, 1], [8, 2]] :=
    ⟨[.ofHoldsAtom (hholds [8, 1] (by decide)), .ofHoldsAtom (hholds [16, 1] (by decide)),
      .ofHoldsAtom (hholds [8, 2] (by decide))], rfl⟩
  have hids : packets.map OneAtomPacket.atomId = [1, 2, 1] := by
    calc packets.map OneAtomPacket.atomId
        = (packets.map OneAtomPacket.payload).map AtomPayload.id := List.map_map.symm
      _ = [1, 2, 1] := by rw [hpayloads]; decide +kernel
  have hlength : packets.length = 3 := by
    rw [← List.length_map (f := OneAtomPacket.payload), hpayloads]
    rfl
  refine ⟨packets, hpayloads, ?_, ?_⟩
  · obtain ⟨next, heach, hlookups⟩ := parseEach_eq_recordAfresh
      ⟨⟨[⟨".Atom", []⟩], []⟩, ".Atom"⟩ defaultTrackName .initial packets
    rw [hids, if_neg (by decide)] at hlookups
    exact ⟨next, heach, hlookups⟩
  · obtain ⟨next, heach, hlookups⟩ := parseEach_eq_recordAfresh .missing defaultTrackName .initial
      packets
    rw [if_pos (by decide), hlength] at hlookups
    exact ⟨next, heach, hlookups⟩

end AtomImporter

end AtomTimeline
