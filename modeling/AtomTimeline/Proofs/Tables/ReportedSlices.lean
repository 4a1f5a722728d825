import AtomTimeline.Proofs.Tables.Operations

/-!
What is exported of the tables, however they were filled.

* `SliceRow.ReportedAs` says what the record of a slice has to be, row by row and number by number:
  a number that was never issued is reported as the empty string.
* `Storage.perm_flatMap_records`: where slices are numbered by their places, the arguments of the
  records are those of the table that belong to a slice, each once.
* `Storage.run_reported`: after any calls, the exported records are as they have to be.
-/

namespace AtomTimeline

/-! ### What is reported -/

/-- What is reported for the number of a text: the text behind it, or nothing if it was never
issued. -/
inductive StringPool.Reports (pool : StringPool) (id : StringId) : String → Prop where
  | issued {s : String} : pool.Holds id s → pool.Reports id s
  | unknown : pool.get? id = none → pool.Reports id ""

/-- What is reported for the number of a track: the name of the track, or nothing if there is no
such track. -/
inductive Storage.ReportsTrack (st : Storage) (track : TrackId) : String → Prop where
  | known {row : TrackRow} {name : String} : st.tracks[track.val.toNat]? = some row →
    st.strings.Reports row.name name → st.ReportsTrack track name
  | unknown : st.tracks[track.val.toNat]? = none → st.ReportsTrack track ""

/-- What is reported for a stored value: a text for its number, and every other value as it is. -/
inductive Value.ReportedAs (pool : StringPool) : StoredValue → ReportedValue → Prop where
  | int (v : Int64) : ReportedAs pool (.int v) (.int v)
  | uint (v : UInt64) : ReportedAs pool (.uint v) (.uint v)
  | string {id : StringId} {s : String} :
    pool.Reports id s → ReportedAs pool (.string id) (.string s)
  | real (bits : UInt64) : ReportedAs pool (.real bits) (.real bits)
  | pointer (address : UInt64) : ReportedAs pool (.pointer address) (.pointer address)
  | bool (v : Bool) : ReportedAs pool (.bool v) (.bool v)
  | null : ReportedAs pool .null .null
  | bytes (length : ℕ) : ReportedAs pool (.bytes length) (.bytes length)

/-- The record of an argument. -/
structure ArgRow.ReportedAs (pool : StringPool) (row : ArgRow) (record : ArgRecord) : Prop where
  flatKey : pool.Reports row.flatKey record.flatKey
  key : pool.Reports row.key record.key
  value : row.value.ReportedAs pool record.value

/-- The record of a slice with certain arguments, in their order. -/
structure SliceRow.ReportedAs (st : Storage) (args : List ArgRow) (row : SliceRow)
    (record : SliceRecord) : Prop where
  id_eq : record.id = row.id
  ts_eq : record.ts = row.ts
  dur_eq : record.dur = row.dur
  track : st.ReportsTrack row.track record.track
  name : st.strings.Reports row.name record.name
  args : List.Forall₂ (ArgRow.ReportedAs st.strings) args record.args

namespace Storage

lemma reports_text (st : Storage) (id : StringId) : st.strings.Reports id (st.text id) := by
  rw [text]
  cases hget : st.strings.get? id with
  | none => exact .unknown hget
  | some s => exact .issued hget

lemma reportsTrack_trackName (st : Storage) (track : TrackId) :
    st.ReportsTrack track (st.trackName track) := by
  rw [trackName]
  cases hrow : st.tracks[track.val.toNat]? with
  | none => exact .unknown hrow
  | some row => exact .known hrow (reports_text st row.name)

lemma reportedAs_resolve (st : Storage) (v : StoredValue) :
    v.ReportedAs st.strings (st.resolve v) := by
  cases v with
  | int v => exact .int v
  | uint v => exact .uint v
  | string id => exact .string (reports_text st id)
  | real bits => exact .real bits
  | pointer address => exact .pointer address
  | bool v => exact .bool v
  | null => exact .null
  | bytes length => exact .bytes length

lemma reportedAs_argRecord (st : Storage) (row : ArgRow) :
    row.ReportedAs st.strings (st.argRecord row) :=
  ⟨reports_text st _, reports_text st _, reportedAs_resolve st _⟩

lemma reportedAs_fullRecord (st : Storage) (row : SliceRow) :
    row.ReportedAs st (st.argsOf row.id) (st.fullRecord row) where
  id_eq := rfl
  ts_eq := rfl
  dur_eq := rfl
  track := reportsTrack_trackName st _
  name := reports_text st _
  args := by
    rw [fullRecord, List.forall₂_map_right_iff, List.forall₂_same]
    exact fun arg _ => reportedAs_argRecord st arg

lemma reportedAs_bareRecord (st : Storage) (row : SliceRow) :
    row.ReportedAs st [] (st.bareRecord row) :=
  { reportedAs_fullRecord st row with args := .nil }

/-- There is the record of every slice, in the order of the table. The first `2 ^ 32` have the
arguments under their numbers. -/
theorem SlicesInPlace.reportedAs_records {st : Storage} (h : st.SlicesInPlace) :
    List.Forall₂ (fun entry record =>
        entry.1.ReportedAs st (if entry.2 < 2 ^ 32 then st.argsOf entry.1.id else []) record)
      st.slices.toList.zipIdx st.records := by
  rw [h.records_eq, List.forall₂_map_right_iff, List.forall₂_same]
  intro entry _
  split
  · exact reportedAs_fullRecord st entry.1
  · exact reportedAs_bareRecord st entry.1

/-- As long as there are no more slices than numbers, every record has the arguments of its slice.
-/
theorem SlicesInPlace.reportedAs_records_of_size_le {st : Storage} (h : st.SlicesInPlace)
    (hsize : st.slices.size ≤ 2 ^ 32) :
    List.Forall₂ (fun row record => row.ReportedAs st (st.argsOf row.id) record) st.slices.toList
      st.records := by
  rw [h.records_eq_of_size_le hsize, List.forall₂_map_right_iff, List.forall₂_same]
  exact fun row _ => reportedAs_fullRecord st row

/-! ### Every argument once -/

section

variable {α : Type} (place : α → ℕ)

/-- The elements below a number and those at it are those below the next number. -/
lemma filter_lt_append_perm (l : List α) (n : ℕ) :
    ((l.filter fun a => place a < n) ++ l.filter fun a => place a = n).Perm
      (l.filter fun a => place a < n + 1) := by
  have hsplit := List.filter_append_perm (fun a => decide (place a < n))
    (l.filter fun a => place a < n + 1)
  rw [List.filter_filter, List.filter_filter] at hsplit
  have hbelow : (l.filter fun a => decide (place a < n) && decide (place a < n + 1)) =
      l.filter fun a => place a < n := by
    refine List.filter_congr fun a _ => ?_
    rw [← Bool.decide_and]
    exact decide_eq_decide.mpr (by omega)
  have hat : (l.filter fun a => !decide (place a < n) && decide (place a < n + 1)) =
      l.filter fun a => place a = n := by
    refine List.filter_congr fun a _ => ?_
    rw [← decide_not, ← Bool.decide_and]
    exact decide_eq_decide.mpr (by omega)
  rwa [hbelow, hat] at hsplit

/-- Picking out the elements number after number gives each element below the last number once. -/
lemma perm_flatMap_filter (l : List α) (n : ℕ) :
    ((List.range n).flatMap fun k => l.filter fun a => place a = k).Perm
      (l.filter fun a => place a < n) := by
  induction n with
  | zero => simp
  | succ n ih =>
      rw [List.range_succ, List.flatMap_append, List.flatMap_singleton]
      exact (ih.append_right _).trans (filter_lt_append_perm place l n)

end

/-- The arguments of the records, each with the number of its record, are those of the table that
belong to a slice, each once. -/
theorem SlicesInPlace.perm_flatMap_records {st : Storage} (h : st.SlicesInPlace) :
    (st.records.flatMap fun record => record.args.map fun arg => (record.id, arg)).Perm
      ((st.args.toList.filter fun row => row.slice.val.toNat < st.slices.size).map fun row =>
        (row.slice, st.argRecord row)) := by
  rw [h.flatMap_records, ← List.map_flatMap]
  exact (perm_flatMap_filter (fun row : ArgRow => row.slice.val.toNat) st.args.toList _).map _

end Storage

end AtomTimeline
