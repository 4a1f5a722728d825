import AtomTimeline.Proofs.Statsd.AtomRecords

/-!
How many strings it takes to record atoms.

* `AtomSchema.room`: two strings for each atom, its name and that of the track, and three for each
  of its arguments, the two keys and a text.
* `AtomImporter.Recorded.size_parseAtom_le`: recording an atom interns no more strings than that. So
  as long as there is room for all atoms recorded, the numbers of strings and slices have not run
  out (`AtomImporter.Recorded.fits`).
-/

namespace AtomTimeline

/-- How many strings there may be for the payload of an atom. -/
def AtomSchema.payloadRoom (schema : AtomSchema) (payload : Bytes) : ℕ :=
  2 + 3 * (schema.args payload).length

/-- How many strings there may be for atoms. -/
def AtomSchema.room (schema : AtomSchema) (atoms : List StampedAtom) : ℕ :=
  (atoms.map fun atom => schema.payloadRoom atom.2).sum

lemma AtomSchema.room_cons (schema : AtomSchema) (atom : StampedAtom) (atoms : List StampedAtom) :
    schema.room (atom :: atoms) = schema.payloadRoom atom.2 + schema.room atoms := by
  rw [room, List.map_cons, List.sum_cons, ← room]

lemma AtomSchema.room_perm (schema : AtomSchema) {atoms others : List StampedAtom}
    (h : atoms.Perm others) : schema.room atoms = schema.room others := (h.map _).sum_eq

lemma AtomSchema.two_mul_length_le_room (schema : AtomSchema) (atoms : List StampedAtom) :
    2 * atoms.length ≤ schema.room atoms := by
  induction atoms with
  | nil => exact le_rfl
  | cons atom atoms ih =>
      rw [room_cons, payloadRoom, List.length_cons]
      omega

/-! ### One call after the other -/

lemma StringPool.size_intern_le (pool : StringPool) (s : String) :
    (pool.intern s).2.strings.size ≤ pool.strings.size + 1 := by
  cases hs : pool.index[s]? with
  | some id =>
      rw [intern_of_known hs]
      exact Nat.le_succ _
  | none => rw [intern_of_new hs, Array.size_push]

namespace Storage

lemma size_store_le (st : Storage) (v : ReadValue) :
    (st.store v).2.strings.strings.size ≤ st.strings.strings.size + 1 := by
  cases v with
  | string s => exact st.strings.size_intern_le s
  | _ => exact Nat.le_succ _

lemma size_insertArg_le (st : Storage) (slice : SliceId) (arg : Arg) :
    (st.insertArg slice arg).strings.strings.size ≤ st.strings.strings.size + 3 := by
  have hvalue := st.size_store_le arg.value
  have hflat := (st.store arg.value).2.strings.size_intern_le arg.key.flat
  have hfull := ((st.store arg.value).2.strings.intern arg.key.flat).2.size_intern_le arg.key.full
  calc (st.insertArg slice arg).strings.strings.size
      = (((st.store arg.value).2.strings.intern arg.key.flat).2.intern
          arg.key.full).2.strings.size := rfl
    _ ≤ st.strings.strings.size + 3 := by omega

lemma size_insertArgs_le (st : Storage) (slice : SliceId) (args : List Arg) :
    (st.insertArgs slice args).strings.strings.size ≤
      st.strings.strings.size + 3 * args.length := by
  induction args generalizing st with
  | nil => exact le_rfl
  | cons arg args ih =>
      have hfirst := st.size_insertArg_le slice arg
      have hrest := ih (st.insertArg slice arg)
      rw [insertArgs, List.foldl_cons, ← insertArgs, List.length_cons]
      omega

end Storage

lemma NameCache.size_resolve_le (cache : NameCache) (schema : AtomSchema) (st : Storage)
    (id : UInt32) :
    (cache.resolve schema st id).2.2.strings.strings.size ≤ st.strings.strings.size + 1 := by
  cases hatom : cache.entries[id]? with
  | some atom =>
      rw [resolve_of_known hatom]
      exact Nat.le_succ _
  | none =>
      rw [resolve_of_new hatom, ask_eq]
      exact st.strings.size_intern_le _

lemma Timeline.strings_globalTrack (t : Timeline) (name : StringId) :
    (t.globalTrack name).2.storage.strings = t.storage.strings := by
  rw [globalTrack]
  split <;> rfl

lemma Timeline.strings_addSlice (t : Timeline) (ts : Int64) (track : TrackId)
    (category name : StringId) (dur : Int64) :
    (t.addSlice ts track category name dur).2.storage.strings = t.storage.strings := by
  rw [addSlice]
  split <;> rfl

lemma Timeline.strings_ite_count (p : Prop) [Decidable p] (t : Timeline) (stat : Stat) :
    (if p then t.count stat else t).storage.strings = t.storage.strings := by
  split <;> rfl

/-! ### One atom -/

namespace AtomImporter

lemma size_internTrack_le (i : AtomImporter) (t : Timeline) :
    (i.internTrack t).2.2.storage.strings.strings.size ≤ t.storage.strings.strings.size + 1 := by
  cases htrack : i.track with
  | some track =>
      rw [internTrack_of_some htrack]
      exact Nat.le_succ _
  | none =>
      simp only [internTrack, htrack, Timeline.strings_globalTrack]
      exact t.storage.strings.size_intern_le i.trackName

lemma size_recordArgs_le (t : Timeline) (slice : SliceId) (result : ArgsResult) :
    (recordArgs t slice result).2.storage.strings.strings.size ≤
      t.storage.strings.strings.size + 3 * result.args.length := by
  simp only [recordArgs, Storage.insertOffers_map_arg]
  split <;> exact t.storage.size_insertArgs_le slice result.args

variable {i : AtomImporter} {t : Timeline} {schema : AtomSchema} {trackName : String}
  {atoms : List StampedAtom}

/-- **Recording an atom** interns no more strings than there is room for. -/
theorem Recorded.size_parseAtom_le (h : i.Recorded t schema trackName atoms) (ts : Int64)
    (payload : Bytes) :
    (i.parseAtom t ts payload).2.2.storage.strings.strings.size ≤
      t.storage.strings.strings.size + schema.payloadRoom payload := by
  obtain ⟨name, known, strings, counters, hresolve, hresolved, -⟩ :=
    h.resolve (AtomPayload.id payload)
  obtain ⟨next, tracked, htrack, hnext, -⟩ := hresolved.internTrack
  have hstrings := i.names.size_resolve_le i.schema t.storage (AtomPayload.id payload)
  have htracked := size_internTrack_le { i with names := known }
    { t with storage := { t.storage with strings, counters } }
  rw [hresolve] at hstrings
  rw [htrack] at htracked
  simp only [AtomImporter.parseAtom, firstField_id, hresolve, htrack, hnext.schema_eq,
    AtomSchema.payloadRoom]
  cases hslice : tracked.addSlice ts ⟨0⟩ .empty name 0 with
  | mk slice? added =>
      have hadded : added.storage.strings = tracked.storage.strings := by
        rw [← tracked.strings_addSlice ts ⟨0⟩ .empty name 0, hslice]
      cases slice? with
      | none =>
          simp only [hadded] at hstrings htracked ⊢
          omega
      | some slice =>
          have hargs := size_recordArgs_le
            (if schema.routeOf (AtomPayload.id payload) = .unknown ∧
              AtomPayload.id payload < vendorAtomIdStart then added.count .atomUnknown else added)
            slice (decode schema (schema.routeOf (AtomPayload.id payload)) payload
              (firstField? payload))
          rw [decode_args, Timeline.strings_ite_count, hadded] at hargs
          simp only at hstrings htracked ⊢
          omega

/-- As long as there is room for the atoms recorded, there are no more strings and no more slices
than numbers for them. -/
lemma Recorded.fits (h : i.Recorded t schema trackName atoms)
    (hsize : t.storage.strings.strings.size ≤ 1 + schema.room atoms)
    (hroom : 1 + schema.room atoms ≤ 2 ^ 32) : t.storage.Fits where
  strings := hsize.trans hroom
  slices := by
    have hatoms := schema.two_mul_length_le_room atoms
    rw [h.slices.size]
    omega

end AtomImporter

end AtomTimeline
