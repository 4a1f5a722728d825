import AtomTimeline.Tables.Storage

/-!
The slice and argument tables joined into records that stand on their own.

* `Storage.records` has one record per slice, in table order, with the slice's arguments in the
  order they were added. Arguments are grouped by the number of their slice in one pass over their
  table; a record takes its group out, so that of slices with the same number only the first has
  arguments.
-/

namespace AtomTimeline

/-- An argument with its texts in place. -/
structure ArgRecord where
  flatKey : String
  key : String
  value : ReportedValue
  deriving DecidableEq, Repr

/-- A slice with its texts and arguments in place. -/
structure SliceRecord where
  id : SliceId
  ts : Int64
  dur : Int64
  track : String
  name : String
  args : List ArgRecord
  deriving DecidableEq, Repr

namespace Storage

/-- The record of an argument. -/
def argRecord (st : Storage) (row : ArgRow) : ArgRecord where
  flatKey := st.text row.flatKey
  key := st.text row.key
  value := st.resolve row.value

/-- Arguments grouped by the slice they belong to. -/
abbrev ArgGroups := Std.HashMap SliceId (Array ArgRecord)

/-- An argument put at the end of its slice's group. -/
def addToGroup (st : Storage) (groups : ArgGroups) (row : ArgRow) : ArgGroups :=
  groups.alter row.slice fun
    | none => some #[st.argRecord row]
    | some others => some (others.push (st.argRecord row))

/-- The arguments of every slice. -/
def argGroups (st : Storage) : ArgGroups := st.args.foldl st.addToGroup ∅

/-- The name of a track; the empty string for a track there is none of. -/
def trackName (st : Storage) (track : TrackId) : String :=
  match st.tracks[track.val.toNat]? with
  | some row => st.text row.name
  | none => ""

/-- The record of a slice, its arguments looked up in the groups. -/
def sliceRecord (st : Storage) (groups : ArgGroups) (row : SliceRow) : SliceRecord where
  id := row.id
  ts := row.ts
  dur := row.dur
  track := st.trackName row.track
  name := st.text row.name
  args := (groups.getD row.id #[]).toList

/-- The records of slices in order, each taking its arguments out of the groups. -/
def takeRecords (st : Storage) (groups : ArgGroups) : List SliceRow → List SliceRecord
  | [] => []
  | row :: rows => st.sliceRecord groups row :: st.takeRecords (groups.erase row.id) rows

/-- One record per slice, in table order. -/
def records (st : Storage) : List SliceRecord := st.takeRecords st.argGroups st.slices.toList

end Storage

end AtomTimeline
