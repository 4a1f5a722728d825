import AtomTimeline.Tables.StringPool
import AtomTimeline.Tables.Stat
import AtomTimeline.Bytes

/-!
The tables an import fills: interned strings, counters, tracks, slices and arguments.

* A `Value` is generic in how it holds texts and byte strings: an argument as it is read holds them
  themselves (`Value String Bytes`), a row of the table a string's number and a byte string's length
  (`StoredValue`), and an argument as it is reported a text and a length (`ReportedValue`).
* Rows of tracks and slices are numbered by their places, in words of 32 bits (`TrackId.ofPlace`,
  `SliceId.ofPlace`).
* `Storage.argsOf` lists the arguments of a slice; `Storage.resolve` reads a stored value back.
-/

namespace AtomTimeline

/-- The value of an argument, with texts held as `σ` and byte strings as `β`. A real is held by the
bits of its double-precision form. -/
inductive Value (σ β : Type) where
  | int (v : Int64)
  | uint (v : UInt64)
  | string (s : σ)
  | real (bits : UInt64)
  | pointer (address : UInt64)
  | bool (v : Bool)
  | null
  | bytes (b : β)
  deriving DecidableEq, Repr

/-- A value with its text and its bytes replaced. -/
def Value.map {σ τ β γ : Type} (f : σ → τ) (g : β → γ) : Value σ β → Value τ γ
  | int v => int v
  | uint v => uint v
  | string s => string (f s)
  | real bits => real bits
  | pointer address => pointer address
  | bool v => bool v
  | null => null
  | bytes b => bytes (g b)

/-- A value in the table of arguments: of bytes only the length is kept. -/
abbrev StoredValue := Value StringId Nat

/-- A value that no longer needs the interned strings. -/
abbrev ReportedValue := Value String Nat

/-- The number of a track. -/
structure TrackId where
  val : UInt32
  deriving DecidableEq, Hashable, Repr

/-- The number of the track at a place of the table. -/
def TrackId.ofPlace (place : Nat) : TrackId := ⟨UInt32.ofNat place⟩

/-- The number of a slice. -/
structure SliceId where
  val : UInt32
  deriving DecidableEq, Hashable, Repr

/-- The number of the slice at a place of the table. -/
def SliceId.ofPlace (place : Nat) : SliceId := ⟨UInt32.ofNat place⟩

/-- A track: a line of the timeline. -/
structure TrackRow where
  id : TrackId
  name : StringId
  deriving DecidableEq, Repr

/-- A slice: a span of time on a track. -/
structure SliceRow where
  id : SliceId
  ts : Int64
  dur : Int64
  track : TrackId
  category : StringId
  name : StringId
  depth : UInt32
  deriving DecidableEq, Repr

/-- An argument of a slice. -/
structure ArgRow where
  slice : SliceId
  flatKey : StringId
  key : StringId
  value : StoredValue
  deriving DecidableEq, Repr

/-- The tables of one import. -/
structure Storage where
  strings : StringPool
  counters : Counters
  tracks : Array TrackRow
  slices : Array SliceRow
  args : Array ArgRow

namespace Storage

/-- Empty tables. -/
def initial : Storage where
  strings := .initial
  counters := .zero
  tracks := #[]
  slices := #[]
  args := #[]

/-- The number of a string, and the tables in which it is held. -/
def intern (st : Storage) (s : String) : StringId × Storage :=
  let (id, strings) := st.strings.intern s
  (id, { st with strings })

/-- The string behind a number; the empty string behind a number that was not issued. -/
def text (st : Storage) (id : StringId) : String := (st.strings.get? id).getD ""

/-- Adds `n` to a counter. -/
def countBy (st : Storage) (stat : Stat) (n : Int64) : Storage :=
  { st with counters := st.counters.add stat n }

/-- Adds one to a counter. -/
def count (st : Storage) (stat : Stat) : Storage := st.countBy stat 1

/-- Adds a track. -/
def insertTrack (st : Storage) (name : StringId) : TrackId × Storage :=
  let id := TrackId.ofPlace st.tracks.size
  (id, { st with tracks := st.tracks.push ⟨id, name⟩ })

/-- Adds a slice, numbered by its place in the table. -/
def insertSlice (st : Storage) (row : SliceRow) : SliceId × Storage :=
  let id := SliceId.ofPlace st.slices.size
  (id, { st with slices := st.slices.push { row with id } })

/-- Adds an argument. -/
def addArg (st : Storage) (row : ArgRow) : Storage := { st with args := st.args.push row }

/-- The arguments of a slice, in the order they were added. -/
def argsOf (st : Storage) (slice : SliceId) : List ArgRow :=
  st.args.toList.filter (fun row => row.slice = slice)

/-- A stored value read back. -/
def resolve (st : Storage) (v : StoredValue) : ReportedValue := v.map st.text id

end Storage

end AtomTimeline
