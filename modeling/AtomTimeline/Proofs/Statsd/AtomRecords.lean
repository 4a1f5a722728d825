import AtomTimeline.Proofs.Statsd.Recording
import AtomTimeline.Proofs.Tables.Exports

/-!
The records exported once atoms were recorded.

* `AtomSchema.record` is what the schema alone says of an atom and its place in the table.
* `AtomImporter.Recorded.records_eq`: as long as there are no more strings and slices than numbers
  for them, the exported records are just these, in the order of the atoms;
  `AtomImporter.Recorded.tracks_eq`: the tracks are the one of the atoms, or none.
-/

namespace AtomTimeline

/-- An argument as it is exported: of bytes only the length is kept. -/
def ArgRecord.ofArg (arg : Arg) : ArgRecord where
  flatKey := arg.key.flat
  key := arg.key.full
  value := arg.value.map id List.length

/-- The record of an atom at a place in the table. -/
def AtomSchema.record (schema : AtomSchema) (trackName : String) (entry : StampedAtom × ℕ) :
    SliceRecord where
  id := .ofPlace entry.2
  ts := entry.1.1
  dur := 0
  track := trackName
  name := schema.title entry.1.2
  args := (schema.args entry.1.2).map ArgRecord.ofArg

/-! ### The arguments of one slice -/

/-- Of the arguments of atoms, those under the number of one slice are the atom's, as long as there
are no more atoms than numbers. -/
lemma filter_slicedArgs (schema : AtomSchema) {atoms : List StampedAtom}
    (hsize : atoms.length ≤ 2 ^ 32) {entry : StampedAtom × ℕ} (h : entry ∈ atoms.zipIdx) :
    ((slicedArgs schema atoms).filter fun row => row.1 = .ofPlace entry.2).map Prod.snd =
      schema.args entry.1.2 := by
  induction atoms using List.reverseRecOn with
  | nil => cases h
  | append_singleton atoms atom ih =>
      rw [List.length_append, List.length_singleton] at hsize
      have hnew : ∀ n < atoms.length, SliceId.ofPlace atoms.length ≠ .ofPlace n := by
        intro n hn heq
        rw [SliceId.ofPlace_eq_iff, Nat.mod_eq_of_lt (by omega), Nat.mod_eq_of_lt (by omega)] at heq
        omega
      have hnone : ((slicedArgs schema atoms).filter fun row => row.1 = .ofPlace atoms.length) =
          [] := by
        refine List.filter_eq_nil_iff.mpr fun row hrow hid => ?_
        obtain ⟨other, hother, hmap⟩ := List.mem_flatMap.mp hrow
        obtain ⟨arg, -, rfl⟩ := List.mem_map.mp hmap
        have hlt := List.snd_lt_of_mem_zipIdx hother
        exact hnew other.2 (by omega) (of_decide_eq_true hid).symm
      rw [slicedArgs_append_singleton, List.filter_append, List.map_append]
      rw [List.zipIdx_append, List.mem_append] at h
      rcases h with h | h
      · have hlt := List.snd_lt_of_mem_zipIdx h
        rw [ih (by omega) h]
        simp [List.filter_map, Function.comp_def, hnew entry.2 (by omega)]
      · obtain rfl : entry = (atom, atoms.length) := by simpa using h
        rw [hnone]
        simp [List.filter_map, Function.comp_def]

namespace Storage

variable {st : Storage} {schema : AtomSchema} {trackName : String} {atoms : List StampedAtom}

lemma argRecord_of_shows (h : st.strings.Sound) (hsize : st.strings.strings.size ≤ 2 ^ 32)
    {row : ArgRow} {slice : SliceId} {arg : Arg} (hrow : row.Shows st.strings slice arg) :
    st.argRecord row = .ofArg arg := by
  rw [argRecord, text_of_numbers h hsize hrow.flatKey, text_of_numbers h hsize hrow.key,
    resolve_of_shows h hsize hrow.value, ArgRecord.ofArg]

lemma ShowsSlices.inPlace (h : st.ShowsSlices schema atoms) : st.SlicesInPlace := by
  intro n row hrow
  rw [← Array.getElem?_toList] at hrow
  obtain ⟨hlt, rfl⟩ := List.getElem?_eq_some_iff.mp hrow
  have hentry : n < atoms.zipIdx.length := h.length_eq ▸ hlt
  have hshows := (h.get hlt hentry).id_eq
  simpa using hshows

/-- The rows of a slice show the arguments of its atom. -/
lemma ShowsArgs.argsOf_eq (h : st.ShowsArgs schema atoms) (hsound : st.strings.Sound)
    (hstrings : st.strings.strings.size ≤ 2 ^ 32) (hatoms : atoms.length ≤ 2 ^ 32)
    {entry : StampedAtom × ℕ} (hentry : entry ∈ atoms.zipIdx) :
    (st.argsOf (.ofPlace entry.2)).map st.argRecord =
      (schema.args entry.1.2).map ArgRecord.ofArg := by
  rw [ShowsArgs] at h
  rw [← filter_slicedArgs schema hatoms hentry, argsOf]
  generalize st.args.toList = rows at h
  generalize slicedArgs schema atoms = showns at h
  induction h with
  | nil => rfl
  | @cons row shown rows showns hrow _ ih =>
      rw [List.filter_cons, List.filter_cons, hrow.slice_eq]
      split
      · rw [List.map_cons, List.map_cons, List.map_cons,
          argRecord_of_shows hsound hstrings hrow, ih]
      · exact ih

lemma OneTrack.trackName_eq (h : st.OneTrack trackName) (hsound : st.strings.Sound)
    (hsize : st.strings.strings.size ≤ 2 ^ 32) : st.trackName ⟨0⟩ = trackName := by
  obtain ⟨name, htracks, hname⟩ := h
  rw [Storage.trackName, htracks]
  exact text_of_numbers hsound hsize hname

end Storage

/-! ### Everything recorded -/

namespace AtomImporter

variable {i : AtomImporter} {t : Timeline} {schema : AtomSchema} {trackName : String}
  {atoms : List StampedAtom}

lemma Recorded.oneTrack (h : i.Recorded t schema trackName atoms) (hne : atoms ≠ []) :
    t.storage.OneTrack trackName := by
  rcases h.track with ⟨htrack, -⟩ | ⟨-, hone⟩
  · exact absurd (h.track_iff.mp htrack) hne
  · exact hone

/-- The exported records are those the schema says of the recorded atoms. -/
theorem Recorded.records_eq (h : i.Recorded t schema trackName atoms) (hfits : t.storage.Fits) :
    t.storage.records = atoms.zipIdx.map (schema.record trackName) := by
  have hatoms : atoms.length ≤ 2 ^ 32 := by
    rw [← h.slices.size]
    exact hfits.slices
  rw [h.slices.inPlace.records_eq_of_size_le hfits.slices]
  refine List.ext_getElem (by simpa using h.slices.length_eq) fun n hrow hentry => ?_
  rw [List.length_map] at hrow hentry
  rw [List.getElem_map, List.getElem_map]
  have hshows := h.slices.get hrow hentry
  rw [List.get_eq_getElem, List.get_eq_getElem] at hshows
  have hmem : atoms.zipIdx[n] ∈ atoms.zipIdx := List.getElem_mem hentry
  have hne : atoms ≠ [] := by
    rintro rfl
    cases hmem
  rw [Storage.fullRecord, hshows.id_eq, hshows.ts_eq, hshows.dur_eq, hshows.track_eq,
    Storage.text_of_numbers h.sound hfits.strings hshows.name,
    h.args.argsOf_eq h.sound hfits.strings hatoms hmem,
    (h.oneTrack hne).trackName_eq h.sound hfits.strings]
  rfl

/-- The tracks are the one of the atoms, which is there once an atom is. -/
theorem Recorded.tracks_eq (h : i.Recorded t schema trackName atoms) :
    if atoms = [] then t.storage.tracks = #[] else t.storage.OneTrack trackName := by
  rcases h.track with ⟨htrack, htracks, -⟩ | ⟨htrack, hone⟩
  · rw [if_pos (h.track_iff.mp htrack), htracks]
  · have hne : atoms ≠ [] := by
      rw [ne_eq, ← h.track_iff, htrack]
      exact Option.some_ne_none _
    rw [if_neg hne]
    exact hone

end AtomImporter

end AtomTimeline
