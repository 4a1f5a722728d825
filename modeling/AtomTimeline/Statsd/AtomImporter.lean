import AtomTimeline.Args.Untyped
import AtomTimeline.Packet.Batch
import AtomTimeline.Session.Importer
import AtomTimeline.Statsd.NameCache

/-!
The importer of atoms. A batch is split into packets of one atom each, so that every atom is put in
order by its own timestamp; each then becomes a slice without duration on one track, named after
the atom, with the atom's fields as arguments.

* `AtomImporter.tokenize` splits a batch; an atom without a timestamp of its own gets the packet's.
* `AtomImporter.parseAtom` records an atom: by its declared type if the schema knows the id, and
  from wire types otherwise.
-/

namespace AtomTimeline

/-- The name of the track of atoms unless another is asked for. -/
def defaultTrackName : String := "Statsd Atoms"

/-- Ids from here on are those of vendors, whose atoms no schema can know. -/
def vendorAtomIdStart : UInt32 := 100000

/-- The importer of atoms. -/
structure AtomImporter where
  schema : AtomSchema
  names : NameCache
  trackName : String
  /-- The track of atoms, once it was asked for. -/
  track : Option TrackId

namespace AtomImporter

/-- An importer that has seen nothing. -/
def ofSchema (schema : AtomSchema) (trackName : String) : AtomImporter :=
  ⟨schema, .empty, trackName, none⟩

/-- The track of atoms. -/
def internTrack (i : AtomImporter) (t : Timeline) : TrackId × AtomImporter × Timeline :=
  match i.track with
  | some track => (track, i, t)
  | none =>
    let (name, t) := t.intern i.trackName
    let (track, t) := t.globalTrack name
    (track, { i with track := some track }, t)

/-! ### Splitting batches -/

/-- The packet of one atom, waiting under its timestamp. -/
def timedAtom (sequence : SequenceHandle) (stamped : Int64 × Bytes) : TimedPacket where
  ts := stamped.1
  sequence := sequence
  blob := singletonPacket stamped.1 stamped.2

/-- Queues the atoms of a batch, counting what is wrong with it. -/
def queueBatch (context : Context) (batch : Batch) (offer : PacketOffer) : Context :=
  let timeline :=
    if batch.malformed then context.timeline.count .packetMalformed else context.timeline
  { timeline := timeline.mapStorage
      (·.countBy .atomTimestampMissing (Int64.ofNat batch.missingTimestamps))
    sorter := ((batch.resolved offer.ts).map (timedAtom offer.sequence)).foldl Sorter.push
      context.sorter }

/-- Splits the batch of a packet, if it has one. -/
def tokenize (context : Context) (offer : PacketOffer) : Verdict × Context :=
  if offer.field ≠ PacketField.statsdAtom then (.ignored, context)
  else
    match offer.packet.statsd with
    | none => (.ignored, context)
    | some b => (.handled, queueBatch context (Batch.decode b) offer)

/-! ### Recording atoms -/

/-- The bytes that are decoded from wire types: the body of the first field, or the whole payload
if that is not length-delimited. -/
def untypedBody (payload : Bytes) (member : Option Field) : Bytes :=
  match member with
  | some ⟨_, .lengthDelimited body⟩ => body
  | _ => payload

/-- The arguments of an atom. -/
def decode (schema : AtomSchema) (route : AtomRoute) (payload : Bytes) (member : Option Field) :
    ArgsResult :=
  match route with
  | .schema => schema.parseAtom payload
  | .unknown | .noSchema => .ofArgs (untypedArgs (untypedBody payload member))

/-- Puts the arguments of an atom on its slice; a payload that cannot be decoded is counted. -/
def recordArgs (t : Timeline) (slice : SliceId) (result : ArgsResult) :
    Option FatalCheck × Timeline :=
  match t.storage.insertOffers slice (result.args.map .arg) with
  | (some fatal, storage) => (some fatal, { t with storage })
  | (none, storage) =>
    let t := { t with storage }
    (none, if result.error.isSome then t.count .atomUnknown else t)

/-- Puts an atom on the timeline. The first field of a payload names the atom. -/
def parseAtom (i : AtomImporter) (t : Timeline) (ts : Int64) (payload : Bytes) :
    Option FatalCheck × AtomImporter × Timeline :=
  let member := firstField? payload
  let id := (member.map Field.id).getD 0
  let (atom, names, storage) := i.names.resolve i.schema t.storage id
  let (track, i, t) := internTrack { i with names } { t with storage }
  match t.addSlice ts track .empty atom.name 0 with
  | (none, t) => (none, i, t)
  | (some slice, t) =>
    let t := if atom.route = .unknown ∧ id < vendorAtomIdStart then t.count .atomUnknown else t
    let (fatal, t) := recordArgs t slice (decode i.schema atom.route payload member)
    (fatal, i, t)

/-- Puts the atom of a packet on the timeline; splitting left exactly one in it. -/
def parse (i : AtomImporter) (t : Timeline) (sorted : SortedPacket) :
    Option FatalCheck × AtomImporter × Timeline :=
  if sorted.field ≠ PacketField.statsdAtom then (none, i, t)
  else
    match (Batch.decode (sorted.packet.statsd.getD [])).atoms with
    | [payload] => i.parseAtom t sorted.ts payload
    | atoms => (some (.notOneAtom atoms.length), i, t)

instance : Importer AtomImporter where
  fields _ := [PacketField.statsdAtom]
  tokenize i context offer :=
    let (verdict, context) := tokenize context offer
    (verdict, i, context)
  parse i context sorted :=
    let (fatal, i, timeline) := parse i context.timeline sorted
    (fatal, i, { context with timeline })

end AtomImporter

end AtomTimeline
