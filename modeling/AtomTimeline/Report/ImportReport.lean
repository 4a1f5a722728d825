import AtomTimeline.Json.Value
import AtomTimeline.Report.Table
import AtomTimeline.Tables.Records

/-!
What is reported of an import: every slice with its arguments, and the counters that are not zero.

* `ImportReport.tableText` and `ImportReport.jsonText` are its two forms.
-/

namespace AtomTimeline

/-- What is reported of an import. -/
structure ImportReport where
  slices : List SliceRecord
  /-- The counters that are not zero. -/
  counts : List (Stat × Int64)
  deriving DecidableEq, Repr

namespace ImportReport

/-- The report of the tables of an import. -/
def ofStorage (st : Storage) : ImportReport where
  slices := st.records
  counts := (Stat.all.map fun stat => (stat, st.counters.get stat)).filter fun c => c.2 ≠ 0

/-! ### As tables -/

/-- An argument in the cell of its slice. -/
def argText (arg : ArgRecord) : String := arg.key ++ "=" ++ arg.value.text

/-- The cells of a slice. -/
def sliceRow (slice : SliceRecord) : List String :=
  [toString slice.ts.toInt, slice.name, String.intercalate " " (slice.args.map argText)]

/-- The table of slices. -/
def sliceTable (r : ImportReport) : Table := ⟨["ts", "name", "args"], r.slices.map sliceRow⟩

/-- The cells of a counter. -/
def countRow (c : Stat × Int64) : List String :=
  [c.1.name, c.1.severity.name, toString c.2.toInt, c.1.description]

/-- The table of counters. -/
def countTable (r : ImportReport) : Table :=
  ⟨["stat", "severity", "value", "description"], r.counts.map countRow⟩

/-- The report as tables. -/
def tableText (r : ImportReport) : String :=
  r.sliceTable.text ++ if r.counts = [] then "" else "\n" ++ r.countTable.text

/-! ### As JSON -/

/-- A value that says its type. -/
def typed (name : String) (value : JsonValue) : JsonValue :=
  .object [("type", .string name), ("value", value)]

/-- The value of an argument. -/
def valueJson : ReportedValue → JsonValue
  | .int v => typed "int" (.int v.toInt)
  | .uint v => typed "uint" (.int v.toNat)
  | .string s => typed "string" (.string s)
  | .real bits => typed "real" (.real bits)
  | .pointer address => typed "pointer" (.int address.toNat)
  | .bool v => typed "bool" (.bool v)
  | .null => .object [("type", .string "null")]
  | .bytes length => typed "bytes" (.int length)

/-- An argument. -/
def argJson (arg : ArgRecord) : JsonValue :=
  .object
    [("flat_key", .string arg.flatKey), ("key", .string arg.key), ("value", valueJson arg.value)]

/-- A slice. -/
def sliceJson (slice : SliceRecord) : JsonValue :=
  .object
    [("args", .list (slice.args.map argJson)), ("dur", .int slice.dur.toInt),
      ("id", .int slice.id.val.toNat), ("name", .string slice.name), ("track", .string slice.track),
      ("ts", .int slice.ts.toInt)]

/-- A counter. -/
def countJson (c : Stat × Int64) : JsonValue :=
  .object
    [("description", .string c.1.description), ("name", .string c.1.name),
      ("severity", .string c.1.severity.name), ("value", .int c.2.toInt)]

/-- The report as one JSON value. Members are in the order of their keys. -/
def json (r : ImportReport) : JsonValue :=
  .object [("slices", .list (r.slices.map sliceJson)), ("stats", .list (r.counts.map countJson))]

/-- The report as JSON. -/
def jsonText (r : ImportReport) : String := r.json.pretty ++ "\n"

end ImportReport

end AtomTimeline
