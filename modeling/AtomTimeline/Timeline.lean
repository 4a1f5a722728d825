import AtomTimeline.Args.Key

/-!
The timeline under construction: the tables, the tracks known by name, and the order of slices.

* `Timeline.globalTrack` makes one track per name, `Timeline.addSlice` refuses a slice that starts
  before the last one on its track.
* `Storage.insertArg` and `Storage.insertArgs` put arguments that were read into the table;
  `Storage.insertOffers` does so with whatever is offered, up to an offer that is fatal.
-/

namespace AtomTimeline

/-- A fact of which an import is sure, found not to hold. The import stops there. -/
inductive FatalCheck where
  /-- A sorted packet holds `found` atoms and not exactly one. -/
  | notOneAtom (found : Nat)
  /-- A JSON value was offered as an argument of an atom. -/
  | jsonArgument
  /-- An element of a list was looked up behind its end. -/
  | outOfBounds (length index : Nat)
  deriving DecidableEq, Repr

/-- The text of a failed check. -/
def FatalCheck.message : FatalCheck → String
  | .notOneAtom found =>
    "assertion `left == right` failed: " ++
      "statsd packet must hold exactly one atom after tokenization\n" ++
      s!"  left: {found}\n right: 1"
  | .jsonArgument => "Unexpected JSON value when parsing statsd data"
  | .outOfBounds length index =>
    s!"index out of bounds: the len is {length} but the index is {index}"

/-! ### Arguments -/

namespace Storage

/-- A value that was read, in the form of the table. A text is interned. -/
def store (st : Storage) : ReadValue → StoredValue × Storage
  | .string s =>
    let (id, st) := st.intern s
    (.string id, st)
  | .int v => (.int v, st)
  | .uint v => (.uint v, st)
  | .real bits => (.real bits, st)
  | .pointer address => (.pointer address, st)
  | .bool v => (.bool v, st)
  | .null => (.null, st)
  | .bytes b => (.bytes b.length, st)

/-- Puts an argument of a slice into the table. A text value is interned first, then the flat key,
then the full key. -/
def insertArg (st : Storage) (slice : SliceId) (arg : Arg) : Storage :=
  let (value, st) := st.store arg.value
  let (flatKey, st) := st.intern arg.key.flat
  let (key, st) := st.intern arg.key.full
  st.addArg { slice, flatKey, key, value }

/-- Puts arguments of a slice into the table, in order. -/
def insertArgs (st : Storage) (slice : SliceId) (args : List Arg) : Storage :=
  args.foldl (fun st arg => st.insertArg slice arg) st

end Storage

/-- What may be offered as an argument of a slice. -/
inductive ArgOffer where
  | arg (arg : Arg)
  /-- A JSON text, which no atom holds. -/
  | json (key : Key) (text : String)
  deriving DecidableEq, Repr

/-- Puts an offered argument into the table; a JSON text is fatal. -/
def Storage.insertOffer (st : Storage) (slice : SliceId) : ArgOffer → Except FatalCheck Storage
  | .arg arg => .ok (st.insertArg slice arg)
  | .json _ _ => .error .jsonArgument

/-- Puts offered arguments into the table, in order, up to one that is fatal. -/
def Storage.insertOffers (st : Storage) (slice : SliceId) :
    List ArgOffer → Option FatalCheck × Storage
  | [] => (none, st)
  | offer :: offers =>
    match st.insertOffer slice offer with
    | .ok st => st.insertOffers slice offers
    | .error fatal => (some fatal, st)

/-! ### Tracks and slices -/

/-- The tables, with what is remembered of tracks and slices while they fill. -/
structure Timeline where
  storage : Storage
  /-- The track made for each name. -/
  globalTracks : Std.HashMap StringId TrackId
  /-- The start of the last slice on each track. -/
  lastStarts : Std.HashMap TrackId Int64

namespace Timeline

/-- A timeline with nothing on it. -/
def initial : Timeline := ⟨.initial, ∅, ∅⟩

/-- The track with a name, made the first time it is asked for. -/
def globalTrack (t : Timeline) (name : StringId) : TrackId × Timeline :=
  match t.globalTracks[name]? with
  | some track => (track, t)
  | none =>
    let (track, storage) := t.storage.insertTrack name
    (track, { t with storage, globalTracks := t.globalTracks.insert name track })

/-- A slice that would start before the last one on its track. -/
def outOfOrder (t : Timeline) (ts : Int64) (track : TrackId) : Bool :=
  match t.lastStarts[track]? with
  | some last => ts < last
  | none => false

/-- Puts a slice on a track. One that starts before the last slice there is refused and counted. -/
def addSlice (t : Timeline) (ts : Int64) (track : TrackId) (category name : StringId)
    (dur : Int64) : Option SliceId × Timeline :=
  if t.outOfOrder ts track then
    (none, { t with storage := t.storage.count .sliceOutOfOrder })
  else
    let (id, storage) := t.storage.insertSlice
      { id := ⟨0⟩, ts, dur, track, category, name, depth := 0 }
    (some id, { t with storage, lastStarts := t.lastStarts.insert track ts })

/-- The timeline with its tables changed. -/
def mapStorage (t : Timeline) (f : Storage → Storage) : Timeline :=
  { t with storage := f t.storage }

/-- The number of a string, and the timeline in which it is held. -/
def intern (t : Timeline) (s : String) : StringId × Timeline :=
  let (id, storage) := t.storage.intern s
  (id, { t with storage })

/-- Adds one to a counter. -/
def count (t : Timeline) (stat : Stat) : Timeline := t.mapStorage (·.count stat)

end Timeline

end AtomTimeline
