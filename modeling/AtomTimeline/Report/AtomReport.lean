import AtomTimeline.Report.Table
import AtomTimeline.Schema.AtomSchema

/-!
What is reported of a schema: the atoms it knows.

* `AtomReport.tableText` has a line for every atom, in the order of ids.
-/

namespace AtomTimeline

/-- A name without the dots in front. -/
def withoutDots (name : String) : String := String.ofList (name.toList.dropWhile (· = '.'))

/-- The message whose fields are the atoms, as it is reported. -/
structure AtomReport where
  message : MessageDescriptor
  deriving DecidableEq, Repr

namespace AtomReport

/-- The cells of an atom. -/
def row (f : FieldDescriptor) : List String :=
  [toString f.number.toNat, f.name, withoutDots f.typeName]

/-- The table of atoms. -/
def table (r : AtomReport) : Table := ⟨["id", "name", "type"], r.message.fields.map row⟩

/-- The report as a table. -/
def tableText (r : AtomReport) : String := r.table.text

end AtomReport

end AtomTimeline
