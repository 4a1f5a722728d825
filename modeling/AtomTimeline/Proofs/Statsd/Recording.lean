import AtomTimeline.Proofs.Sorter.StableOrder
import AtomTimeline.Proofs.Statsd.AtomMeaning
import AtomTimeline.Proofs.Tables.SlicesOnTracks

/-!
What the importer of atoms has put on the timeline.

* `Storage.ShowsSlices` and `Storage.ShowsArgs`: the tables show a list of atoms with their
  timestamps, row for row: one slice each, and the arguments of each atom under the number of its
  slice.
* `AtomImporter.Recorded`: the tables show the atoms recorded so far, and what the importer and the
  timeline remember of names, the track and the last start agrees with that.
* `refuses_iff_slices`: recorded atoms are in the order of their timestamps, so what is refused
  starts before some slice in the table.
* `AtomImporter.Recorded.parseAtom`: one more atom either starts before the last recorded one and is
  refused, or is shown behind the others, and the counters grow as the schema says. This is the one
  fact about recording an atom; what holds of whole runs follows by induction.
-/

namespace AtomTimeline

/-- An atom with the timestamp by which it is put in order. -/
abbrev StampedAtom := Int64 × Bytes

/-! ### What tables show -/

/-- The slice of an atom: without duration, on the first track, under the atom's name. -/
structure SliceRow.Shows (pool : StringPool) (schema : AtomSchema) (row : SliceRow)
    (entry : StampedAtom × ℕ) : Prop where
  id_eq : row.id = .ofPlace entry.2
  ts_eq : row.ts = entry.1.1
  dur_eq : row.dur = 0
  track_eq : row.track = ⟨0⟩
  category_eq : row.category = .empty
  depth_eq : row.depth = 0
  name : pool.Numbers row.name (schema.title entry.1.2)

/-- The arguments of atoms, each with the number of the atom's slice. -/
def slicedArgs (schema : AtomSchema) (atoms : List StampedAtom) : List (SliceId × Arg) :=
  atoms.zipIdx.flatMap fun entry => (schema.args entry.1.2).map fun arg => (.ofPlace entry.2, arg)

lemma slicedArgs_append_singleton (schema : AtomSchema) (atoms : List StampedAtom)
    (atom : StampedAtom) :
    slicedArgs schema (atoms ++ [atom]) =
      slicedArgs schema atoms ++
        (schema.args atom.2).map fun arg => (.ofPlace atoms.length, arg) := by
  simp [slicedArgs, List.zipIdx_append]

namespace Storage

/-- The slices are those of the atoms, row for row. -/
def ShowsSlices (st : Storage) (schema : AtomSchema) (atoms : List StampedAtom) : Prop :=
  List.Forall₂ (fun row entry => row.Shows st.strings schema entry) st.slices.toList atoms.zipIdx

/-- The arguments are those of the atoms, row for row. -/
def ShowsArgs (st : Storage) (schema : AtomSchema) (atoms : List StampedAtom) : Prop :=
  List.Forall₂ (fun row entry => row.Shows st.strings entry.1 entry.2) st.args.toList
    (slicedArgs schema atoms)

/-- There is one track, with the given name. -/
def OneTrack (st : Storage) (trackName : String) : Prop :=
  ∃ name, st.tracks = #[⟨⟨0⟩, name⟩] ∧ st.strings.Numbers name trackName

/-- One slice was added, and arguments behind those that were there. -/
structure GrowsBySlice (st after : Storage) : Prop where
  slices : ∃ row, after.slices = st.slices.push row
  args : ∃ rows : List ArgRow, after.args = st.args ++ rows.toArray
  size_le : st.strings.strings.size ≤ after.strings.strings.size

/-- The strings grew, and the table of arguments is as it was. -/
structure KeepsArgs (st after : Storage) : Prop where
  strings : st.strings.Keeps after.strings
  args : after.args = st.args

variable {st after : Storage} {schema : AtomSchema} {atoms : List StampedAtom} {trackName : String}

lemma KeepsArgs.trans {last : Storage} (h : st.KeepsArgs after) (h' : after.KeepsArgs last) :
    st.KeepsArgs last := ⟨h.strings.trans h'.strings, h'.args.trans h.args⟩

lemma ShowsSlices.size (h : st.ShowsSlices schema atoms) : st.slices.size = atoms.length := by
  simpa using h.length_eq

lemma ShowsSlices.map_ts (h : st.ShowsSlices schema atoms) :
    st.slices.toList.map SliceRow.ts = atoms.map Prod.fst := by
  have hts : List.Forall₂ (fun row entry => row.ts = entry.1.1) st.slices.toList atoms.zipIdx :=
    h.imp fun _ _ hrow => hrow.ts_eq
  calc st.slices.toList.map SliceRow.ts
      = atoms.zipIdx.map fun entry => entry.1.1 := by
        rw [← List.forall₂_eq_eq_eq, List.forall₂_map_left_iff, List.forall₂_map_right_iff]
        exact hts
    _ = (atoms.zipIdx.map Prod.fst).map Prod.fst := (List.map_map).symm
    _ = atoms.map Prod.fst := by rw [List.zipIdx_map_fst]

lemma ShowsSlices.grow (h : st.ShowsSlices schema atoms) (hkeeps : st.strings.Keeps after.strings)
    (hslices : after.slices = st.slices) : after.ShowsSlices schema atoms := by
  rw [ShowsSlices, hslices]
  exact h.imp fun _ _ hrow => { hrow with name := hkeeps.numbers hrow.name }

lemma ShowsSlices.push (h : st.ShowsSlices schema atoms) {row : SliceRow} {atom : StampedAtom}
    (hrow : row.Shows st.strings schema (atom, atoms.length))
    (hstrings : after.strings = st.strings) (hslices : after.slices = st.slices.push row) :
    after.ShowsSlices schema (atoms ++ [atom]) := by
  rw [ShowsSlices, hslices, hstrings, Array.toList_push, List.zipIdx_append]
  exact List.rel_append h (by simpa using hrow)

lemma ShowsArgs.keep (h : st.ShowsArgs schema atoms) (hkeep : st.KeepsArgs after) :
    after.ShowsArgs schema atoms := by
  rw [ShowsArgs, hkeep.args]
  exact h.imp fun _ _ hrow => hrow.mono hkeep.strings

lemma ShowsArgs.append (h : st.ShowsArgs schema atoms) {atom : StampedAtom} {rows : List ArgRow}
    (hkeeps : st.strings.Keeps after.strings) (hargs : after.args = st.args ++ rows.toArray)
    (hrows : List.Forall₂ (fun row arg => row.Shows after.strings (.ofPlace atoms.length) arg) rows
      (schema.args atom.2)) : after.ShowsArgs schema (atoms ++ [atom]) := by
  rw [ShowsArgs, hargs, Array.toList_append, slicedArgs_append_singleton]
  refine List.rel_append (h.imp fun _ _ hrow => hrow.mono hkeeps) ?_
  exact List.forall₂_map_right_iff.mpr hrows

lemma OneTrack.grow (h : st.OneTrack trackName) (hkeeps : st.strings.Keeps after.strings)
    (htracks : after.tracks = st.tracks) : after.OneTrack trackName := by
  obtain ⟨name, hst, hname⟩ := h
  exact ⟨name, htracks.trans hst, hkeeps.numbers hname⟩

end Storage

/-! ### The importer between two atoms -/

/-- An atom with this timestamp would start before the last of the atoms. -/
def refuses (atoms : List StampedAtom) (ts : Int64) : Bool :=
  atoms.getLast?.any fun last => ts < last.1

/-- The atoms recorded once one more was handed to the importer. -/
def recordNext (atoms : List StampedAtom) (atom : StampedAtom) : List StampedAtom :=
  if refuses atoms atom.1 then atoms else atoms ++ [atom]

section

variable {atoms : List StampedAtom} (h : InTime Prod.fst atoms)
include h

/-- Of atoms in the order of their timestamps the last one is the latest. -/
lemma refuses_iff (ts : Int64) : refuses atoms ts = true ↔ ∃ atom ∈ atoms, ts < atom.1 := by
  rw [refuses, Option.any_eq_true]
  constructor
  · rintro ⟨last, hlast, hlt⟩
    exact ⟨last, List.mem_of_getLast? hlast, of_decide_eq_true hlt⟩
  · rintro ⟨atom, hatom, hlt⟩
    rcases List.eq_nil_or_concat' atoms with rfl | ⟨front, last, rfl⟩
    · cases hatom
    · have hle : atom.1 ≤ last.1 := by
        rcases List.mem_append.mp hatom with hfront | hlast
        · exact (List.pairwise_append.mp h).2.2 atom hfront last (List.mem_singleton_self last)
        · rw [List.mem_singleton.mp hlast]
          exact Int64.le_refl _
      exact ⟨last, List.getLast?_concat, decide_eq_true (Int64.lt_of_lt_of_le hlt hle)⟩

/-- What is recorded stays in the order of the timestamps. -/
lemma inTime_recordNext (atom : StampedAtom) : InTime Prod.fst (recordNext atoms atom) := by
  rw [recordNext]
  split
  · exact h
  · next hr =>
    refine List.pairwise_append.mpr ⟨h, List.pairwise_singleton _ _, fun a ha b hb => ?_⟩
    rw [List.mem_singleton.mp hb]
    by_contra hle
    exact hr ((refuses_iff h atom.1).mpr ⟨a, ha, Int64.not_le.mp hle⟩)

/-- What is refused starts before some slice in the table. -/
lemma refuses_iff_slices {st : Storage} {schema : AtomSchema}
    (hslices : st.ShowsSlices schema atoms) (ts : Int64) :
    refuses atoms ts = true ↔ ∃ row ∈ st.slices, ts < row.ts := by
  calc refuses atoms ts = true
      ↔ ∃ t ∈ atoms.map Prod.fst, ts < t := by simp [refuses_iff h]
    _ ↔ ∃ t ∈ st.slices.toList.map SliceRow.ts, ts < t := by rw [hslices.map_ts]
    _ ↔ ∃ row ∈ st.slices, ts < row.ts := by simp

end

namespace AtomImporter

/-- The slices are those of the atoms, and what is remembered of names, the track and the last start
agrees with them. -/
structure Recording (i : AtomImporter) (t : Timeline) (schema : AtomSchema) (trackName : String)
    (atoms : List StampedAtom) : Prop where
  schema_eq : i.schema = schema
  trackName_eq : i.trackName = trackName
  sound : t.storage.strings.Sound
  names : i.names.Remembers schema t.storage.strings
  slices : t.storage.ShowsSlices schema atoms
  track : i.track = none ∧ t.storage.tracks = #[] ∧ t.globalTracks = ∅ ∨
    i.track = some ⟨0⟩ ∧ t.storage.OneTrack trackName
  lastStart : t.lastStarts[(⟨0⟩ : TrackId)]? = atoms.getLast?.map Prod.fst

/-- Nothing is under way: the arguments too are those of the atoms, and there is a track if and only
if there are atoms. -/
structure Recorded (i : AtomImporter) (t : Timeline) (schema : AtomSchema) (trackName : String)
    (atoms : List StampedAtom) : Prop extends Recording i t schema trackName atoms where
  args : t.storage.ShowsArgs schema atoms
  track_iff : i.track = none ↔ atoms = []

lemma recorded_initial (schema : AtomSchema) (trackName : String) :
    (ofSchema schema trackName).Recorded .initial schema trackName [] where
  schema_eq := rfl
  trackName_eq := rfl
  sound := StringPool.sound_initial
  names := NameCache.remembers_empty _ _
  slices := .nil
  track := Or.inl ⟨rfl, rfl, rfl⟩
  lastStart := by simp [Timeline.initial]
  args := .nil
  track_iff := by simp [ofSchema]

variable {i : AtomImporter} {t : Timeline} {schema : AtomSchema} {trackName : String}
  {atoms : List StampedAtom}

/-! ### The steps of recording an atom -/

/-- Nothing depends on the counters. -/
lemma Recording.setCounters (h : i.Recording t schema trackName atoms) (counters : Counters) :
    i.Recording { t with storage := { t.storage with counters } } schema trackName atoms :=
  { h with }

lemma Recorded.setCounters (h : i.Recorded t schema trackName atoms) (counters : Counters) :
    i.Recorded { t with storage := { t.storage with counters } } schema trackName atoms :=
  { h.toRecording.setCounters counters with
    args := h.args.keep ⟨.refl _, rfl⟩
    track_iff := h.track_iff }

/-- Strings, counters and arguments may be added as long as the names remembered are true. -/
lemma Recording.grow (h : i.Recording t schema trackName atoms) {grown : StringPool}
    (hsound : grown.Sound) (hkeeps : t.storage.strings.Keeps grown) {known : NameCache}
    (hknown : known.Remembers schema grown) (counters : Counters) (args : Array ArgRow) :
    Recording { i with names := known }
      { t with storage := { t.storage with strings := grown, counters, args } } schema trackName
      atoms where
  schema_eq := h.schema_eq
  trackName_eq := h.trackName_eq
  sound := hsound
  names := hknown
  slices := h.slices.grow hkeeps rfl
  track := h.track.imp_right (And.imp_right fun htrack => htrack.grow hkeeps rfl)
  lastStart := h.lastStart

/-- Resolving the id of an atom finds the number of its name, and counts a missing schema. -/
lemma Recording.resolve (h : i.Recording t schema trackName atoms) (id : UInt32) :
    ∃ name known strings counters, i.names.resolve i.schema t.storage id =
        (⟨name, schema.routeOf id⟩, known, { t.storage with strings, counters }) ∧
      Recording { i with names := known } { t with storage := { t.storage with strings, counters } }
        schema trackName atoms ∧
      t.storage.strings.Keeps strings ∧ strings.Numbers name (schema.titleOf id) ∧
      counters =
        t.storage.counters.add .atomUnknown (if schema.routeOf id = .noSchema then 1 else 0) := by
  obtain ⟨name, known, grown, hresolve, hsound, hkeeps, hname, hknown⟩ :=
    NameCache.resolve_spec h.names h.sound id
  rw [NameCache.countMissing_eq] at hresolve
  refine ⟨name, known, grown, _, ?_, h.grow hsound hkeeps hknown _ t.storage.args, hkeeps, hname,
    rfl⟩
  rw [h.schema_eq, hresolve]

lemma internTrack_of_some {i : AtomImporter} {track : TrackId} (h : i.track = some track)
    (t : Timeline) : i.internTrack t = (track, i, t) := by
  simp only [AtomImporter.internTrack, h]

/-- The track of atoms is the first one, and it is there once it was asked for. -/
lemma Recording.internTrack (h : i.Recording t schema trackName atoms) :
    ∃ i' t', i.internTrack t = (⟨0⟩, i', t') ∧ i'.Recording t' schema trackName atoms ∧
      t.storage.KeepsArgs t'.storage ∧ t'.storage.slices = t.storage.slices ∧
      t'.storage.counters = t.storage.counters ∧ i'.track = some ⟨0⟩ := by
  rcases h.track with ⟨htrack, htracks, hglobal⟩ | ⟨htrack, hone⟩
  · have hkeeps := StringPool.keeps_intern t.storage.strings trackName
    have heq : i.internTrack t = (⟨0⟩, { i with track := some ⟨0⟩ },
        { t with
          storage :=
            { t.storage with
              strings := (t.storage.strings.intern trackName).2
              tracks := #[⟨⟨0⟩, (t.storage.strings.intern trackName).1⟩] }
          globalTracks := t.globalTracks.insert (t.storage.strings.intern trackName).1 ⟨0⟩ }) := by
      simp only [AtomImporter.internTrack, htrack, h.trackName_eq, Timeline.intern,
        Storage.intern_eq, Timeline.globalTrack, hglobal, Std.HashMap.getElem?_empty,
        Storage.insertTrack, htracks]
      rfl
    refine ⟨_, _, heq, ?_, ⟨hkeeps, rfl⟩, rfl, rfl, rfl⟩
    exact
      { schema_eq := h.schema_eq
        trackName_eq := h.trackName_eq
        sound := h.sound.intern trackName
        names := h.names.mono hkeeps
        slices := h.slices.grow hkeeps rfl
        track := Or.inr ⟨rfl, _, rfl, StringPool.numbers_intern _ _⟩
        lastStart := h.lastStart }
  · exact ⟨i, t, internTrack_of_some htrack t, h, ⟨.refl _, rfl⟩, rfl, rfl, htrack⟩

/-- The track of atoms refuses just what starts before the last atom. -/
lemma Recording.outOfOrder (h : i.Recording t schema trackName atoms) (ts : Int64) :
    t.outOfOrder ts ⟨0⟩ = refuses atoms ts := by
  rw [Timeline.outOfOrder, h.lastStart, refuses]
  cases atoms.getLast? <;> rfl

/-- A slice that is not refused is that of one more atom. -/
lemma Recording.addSlice (h : i.Recording t schema trackName atoms) (atom : StampedAtom)
    {name : StringId}
    (hname : t.storage.strings.Numbers name (schema.title atom.2))
    (haccept : refuses atoms atom.1 = false) :
    ∃ t', t.addSlice atom.1 ⟨0⟩ .empty name 0 = (some (.ofPlace atoms.length), t') ∧
      i.Recording t' schema trackName (atoms ++ [atom]) ∧ t.storage.KeepsArgs t'.storage ∧
      (∃ row, t'.storage.slices = t.storage.slices.push row) ∧
      t'.storage.counters = t.storage.counters := by
  have hout : t.outOfOrder atom.1 ⟨0⟩ = false := by rw [h.outOfOrder, haccept]
  have heq := Timeline.addSlice_of_inOrder hout .empty name 0
  rw [h.slices.size] at heq
  have hrow : (t.nextRow atom.1 ⟨0⟩ .empty name 0).Shows t.storage.strings schema
      (atom, atoms.length) :=
    ⟨congrArg SliceId.ofPlace h.slices.size, rfl, rfl, rfl, rfl, rfl, hname⟩
  refine ⟨_, heq, ?_, ⟨.refl _, rfl⟩, ⟨_, rfl⟩, rfl⟩
  exact
    { schema_eq := h.schema_eq
      trackName_eq := h.trackName_eq
      sound := h.sound
      names := h.names
      slices := h.slices.push hrow rfl rfl
      track := h.track
      lastStart := by simp }

/-- Counting, under a condition, changes the counters alone. -/
lemma count_of_condition (p : Prop) [Decidable p] (t : Timeline) (stat : Stat) :
    (if p then t.count stat else t) =
      { t with
        storage :=
          { t.storage with
            counters := t.storage.counters.add stat (if p then 1 else 0) } } := by
  split
  · rfl
  · rw [Counters.add_zero]

/-- The arguments of an atom go into the table under the number of its slice, and none is fatal. -/
lemma Recording.recordArgs (h : i.Recording t schema trackName atoms) (slice : SliceId)
    (result : ArgsResult) :
    ∃ rows t', AtomImporter.recordArgs t slice result = (none, t') ∧
      i.Recording t' schema trackName atoms ∧
      t.storage.strings.Keeps t'.storage.strings ∧
      t'.storage.slices = t.storage.slices ∧ t'.storage.args = t.storage.args ++ rows.toArray ∧
      List.Forall₂ (fun row arg => row.Shows t'.storage.strings slice arg) rows result.args ∧
      t'.storage.counters =
        t.storage.counters.add .atomUnknown (if result.error.isSome then 1 else 0) := by
  obtain ⟨rows, grown, hinsert, hsound, hkeeps, -, hrows⟩ :=
    Storage.insertArgs_spec h.sound slice result.args
  have heq : AtomImporter.recordArgs t slice result = (none,
      { t with
        storage :=
          { t.storage with
            strings := grown
            counters :=
              t.storage.counters.add .atomUnknown (if result.error.isSome then 1 else 0)
            args := t.storage.args ++ rows.toArray } }) := by
    simp only [AtomImporter.recordArgs, Storage.insertOffers_map_arg, hinsert, count_of_condition]
  exact ⟨rows, _, heq, h.grow hsound hkeeps (h.names.mono hkeeps) _ _, hkeeps, rfl, rfl, hrows, rfl⟩

lemma firstField_id (payload : Bytes) :
    ((firstField? payload).map Field.id).getD 0 = AtomPayload.id payload := by
  rw [firstField?_eq_head?, AtomPayload.id]

/-- An atom that would start before the last one is refused. Of the timeline strings and counters
change, and nothing else. -/
lemma Recorded.parseAtom_of_refused (h : i.Recorded t schema trackName atoms) {ts : Int64}
    (hr : refuses atoms ts = true) (payload : Bytes) :
    ∃ i' strings counters, i.parseAtom t ts payload =
        (none, i', { t with storage := { t.storage with strings, counters } }) ∧
      i'.Recorded { t with storage := { t.storage with strings, counters } } schema trackName
        atoms ∧
      ∀ stat, counters.get stat =
        t.storage.counters.get stat + schema.growth payload true stat := by
  have hne : atoms ≠ [] := by
    rintro rfl
    cases hr
  obtain ⟨name, known, strings, counters, hresolve, h₁, hkeeps, -, hcounters⟩ :=
    h.resolve (AtomPayload.id payload)
  have htrack : ({ i with names := known } : AtomImporter).track = some ⟨0⟩ := by
    rcases h.track with ⟨hnone, -⟩ | ⟨hsome, -⟩
    · exact absurd (h.track_iff.mp hnone) hne
    · exact hsome
  have hout := h₁.outOfOrder ts
  rw [hr] at hout
  have hadd := Timeline.addSlice_of_outOfOrder hout .empty name 0
  refine ⟨{ i with names := known }, strings, counters.add .sliceOutOfOrder 1, ?_, ?_, ?_⟩
  · simp only [parseAtom, firstField_id, hresolve, internTrack_of_some htrack, hadd]
    rfl
  · exact
      { h₁.setCounters _ with
        args := h.args.keep ⟨hkeeps, rfl⟩
        track_iff := h.track_iff }
  · intro stat
    have hgrowth := unknownGrowth_eq schema payload true
    cases stat <;> simp [hcounters, AtomSchema.growth, hgrowth]

/-- An atom that is not refused is shown behind the others. -/
lemma Recorded.parseAtom_of_accepted (h : i.Recorded t schema trackName atoms) {ts : Int64}
    (hr : refuses atoms ts = false) (payload : Bytes) :
    ∃ i' t', i.parseAtom t ts payload = (none, i', t') ∧
      i'.Recorded t' schema trackName (atoms ++ [(ts, payload)]) ∧
      t.storage.GrowsBySlice t'.storage ∧
      ∀ stat, t'.storage.counters.get stat =
        t.storage.counters.get stat + schema.growth payload false stat := by
  obtain ⟨name, known, strings, counters, hresolve, h₁, hkeeps₁, hname, hcounters⟩ :=
    h.resolve (AtomPayload.id payload)
  obtain ⟨i₂, t₂, htrack, h₂, hkeep₂, hslices₂, hcounters₂, hsome⟩ := h₁.internTrack
  obtain ⟨t₃, hadd, h₃, hkeep₃, ⟨row, hslices₃⟩, hcounters₃⟩ := h₂.addSlice (ts, payload)
    (hkeep₂.strings.numbers hname) hr
  obtain ⟨rows, t₄, hrecord, h₄, hkeeps₄, hslices₄, hargs, hrows, hcounters₄⟩ := (h₃.setCounters
    (t₃.storage.counters.add .atomUnknown
      (if schema.routeOf (AtomPayload.id payload) = .unknown ∧
        AtomPayload.id payload < vendorAtomIdStart then 1 else 0))).recordArgs
    (.ofPlace atoms.length) (decode schema (schema.routeOf (AtomPayload.id payload)) payload
      (firstField? payload))
  have heq : i.parseAtom t ts payload = (none, i₂, t₄) := by
    simp only [parseAtom, firstField_id, hresolve, htrack, hadd, count_of_condition, h₂.schema_eq,
      hrecord]
  rw [decode_args] at hrows
  have hkeep₁ : t.storage.KeepsArgs { t.storage with strings, counters } := ⟨hkeeps₁, rfl⟩
  have hkept := hkeep₁.trans (hkeep₂.trans hkeep₃)
  have hargs : t₄.storage.args = t.storage.args ++ rows.toArray := hargs.trans (by rw [hkept.args])
  have hkeeps := hkept.strings.trans hkeeps₄
  refine ⟨i₂, t₄, heq, ?_, ⟨⟨row, ?_⟩, ⟨rows, hargs⟩, hkeeps.size_le⟩, ?_⟩
  · exact
      { h₄ with
        args := h.args.append hkeeps hargs hrows
        track_iff := by simp [hsome] }
  · exact hslices₄.trans (hslices₃.trans (congrArg (·.push row) hslices₂))
  · intro stat
    have hgrowth := unknownGrowth_eq schema payload false
    cases stat <;>
      simp [hcounters₄, hcounters₃, hcounters₂, hcounters, AtomSchema.growth, hgrowth,
        Int64.add_assoc]

/-- **Recording one atom.** No check fails; the atom is refused if it would start before the last
one, and is otherwise shown behind the others. The counters grow as the schema says. -/
theorem Recorded.parseAtom (h : i.Recorded t schema trackName atoms) (ts : Int64)
    (payload : Bytes) :
    ∃ i' t', i.parseAtom t ts payload = (none, i', t') ∧
      i'.Recorded t' schema trackName (recordNext atoms (ts, payload)) ∧
      (∀ stat, t'.storage.counters.get stat =
        t.storage.counters.get stat + schema.growth payload (refuses atoms ts) stat) ∧
      (refuses atoms ts = true →
        ∃ strings counters, t' = { t with storage := { t.storage with strings, counters } }) := by
  cases hr : refuses atoms ts with
  | true =>
      obtain ⟨i', strings, counters, heq, h', hcounters⟩ := h.parseAtom_of_refused hr payload
      rw [recordNext, if_pos hr]
      exact ⟨i', _, heq, h', hcounters, fun _ => ⟨strings, counters, rfl⟩⟩
  | false =>
      obtain ⟨i', t', heq, h', -, hcounters⟩ := h.parseAtom_of_accepted hr payload
      rw [recordNext, if_neg (by simp [hr])]
      exact ⟨i', t', heq, h', hcounters, fun hfalse => by cases hfalse⟩

end AtomImporter

end AtomTimeline
