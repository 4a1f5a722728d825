import AtomTimeline.Session.Importer
import AtomTimeline.Trace.Stream

/-!
Import sessions: packets go in, and at the end of the file the timeline is filled.

* `Session.register` adds an importer, which may fail for one that lists a field twice.
* `Session.push` offers a packet, for each of its fields that has an owner, until an importer
  handles it; a malformed packet is counted and nothing else.
* `Session.drain` hands the queued packets back in order. It goes on as long as packets wait, so
  with importers that queue packets without end it has no result, and neither has
  `Session.importTrace`, which imports a whole trace.
-/

namespace AtomTimeline

/-- An import under way, with importers of type `ι`. -/
structure Session (ι : Type) where
  context : Context
  importers : Array ι
  /-- The place among the importers of the one that owns a field. -/
  owners : Std.HashMap UInt32 Nat
  /-- The latest timestamp of a packet so far; at first zero. -/
  latestTimestamp : Int64
  /-- How often each sequence cleared its incremental state, in words of 32 bits. -/
  generations : Std.HashMap UInt32 UInt32
  packetsSeen : Nat

/-- The packet of a trace that could not be read, counted from 1, and why. -/
structure TraceError where
  packet : Nat
  cause : ReadError
  deriving DecidableEq, Repr

/-- The texts of an error, from the outermost to its cause. -/
def TraceError.chain (e : TraceError) : List String :=
  [s!"Failed to read trace packet {e.packet}", e.cause.message]

/-- How the import of a trace ended. -/
inductive TraceOutcome where
  | complete
  | failed (e : TraceError)
  | halted (check : FatalCheck)
  deriving DecidableEq, Repr

/-- The outcome of a trace that was read to its end, given the check that failed in the end. -/
def TraceOutcome.ofFatal : Option FatalCheck → TraceOutcome
  | none => .complete
  | some check => .halted check

namespace Session

variable {ι : Type} [Importer ι]

/-- A session without importers. -/
def initial : Session ι := ⟨.initial, #[], ∅, 0, ∅, 0⟩

/-- The tables so far. -/
def storage (s : Session ι) : Storage := s.context.timeline.storage

/-- Adds one to a counter. -/
def count (s : Session ι) (stat : Stat) : Session ι :=
  { s with context := { s.context with timeline := s.context.timeline.count stat } }

/-! ### Importers -/

/-- Makes the importer that is to be added at a place the owner of those of the fields that have
none. A warning about a field that has an owner names it, so the owner is looked up among the
importers in front of that place. Where a field is listed twice it is not there. -/
def claim (warns : Bool) (place : Nat) :
    List UInt32 → Std.HashMap UInt32 Nat → Option FatalCheck × Std.HashMap UInt32 Nat
  | [], owners => (none, owners)
  | field :: fields, owners =>
    match owners[field]? with
    | none => claim warns place fields (owners.insert field place)
    | some owner =>
      if warns ∧ place ≤ owner then (some (.outOfBounds place owner), owners)
      else claim warns place fields owners

/-- Adds an importer; a field that has an owner keeps it. -/
def register (s : Session ι) (warns : Bool) (i : ι) : Option FatalCheck × Session ι :=
  match claim warns s.importers.size (Importer.fields i) s.owners with
  | (some fatal, owners) => (some fatal, { s with owners })
  | (none, owners) => (none, { s with owners, importers := s.importers.push i })

/-- The owner of a field. -/
def owner? (s : Session ι) (field : UInt32) : Option (Nat × ι) :=
  match s.owners[field]? with
  | none => none
  | some place => (s.importers[place]?).map fun i => (place, i)

/-! ### Pushing packets -/

/-- The sequence a packet belongs to. A packet that marks its state as cleared begins the next
generation. -/
def enterSequence (s : Session ι) (packet : PacketView) : SequenceHandle × Session ι :=
  let id := packet.sequenceId.getD 0
  let before := s.generations.getD id 0
  let generation := if packet.cleared then before + 1 else before
  (⟨id, generation⟩, { s with generations := s.generations.insert id generation })

/-- The timestamp of a packet; one that has none gets the latest so far. -/
def enterTime (s : Session ι) (packet : PacketView) : Int64 × Session ι :=
  match packet.timestamp with
  | none => (s.latestTimestamp, s)
  | some ts =>
    let ts := ts.toInt64
    (ts, { s with latestTimestamp := max s.latestTimestamp ts })

/-- Offers a packet for one field after the other until an importer handles it. -/
def offer (s : Session ι) (packet : PacketView) (ts : Int64) (sequence : SequenceHandle) :
    List UInt32 → Session ι
  | [] => s.count .packetIgnored
  | field :: fields =>
    match s.owner? field with
    | none => s.offer packet ts sequence fields
    | some (place, i) =>
      let (verdict, i, context) := Importer.tokenize i s.context ⟨packet, ts, sequence, field⟩
      let s := { s with context, importers := s.importers.setIfInBounds place i }
      match verdict with
      | .handled => s
      | .ignored => s.offer packet ts sequence fields

/-- Takes in a serialized packet. -/
def push (s : Session ι) (b : Bytes) : Session ι :=
  let s := { s with packetsSeen := s.packetsSeen + 1 }
  let packet := PacketView.decode b
  if packet.malformed then s.count .packetMalformed
  else
    let (sequence, s) := s.enterSequence packet
    let (ts, s) := s.enterTime packet
    s.offer packet ts sequence packet.fieldIds

/-! ### The end of the file -/

/-- Hands a queued packet to the owner of the first of its fields that has one. -/
def parse (s : Session ι) (p : TimedPacket) : Option FatalCheck × Session ι :=
  let packet := PacketView.decode p.blob
  match packet.fieldIds.findSome? fun field => (s.owner? field).map fun o => (o, field) with
  | none => (none, s)
  | some ((place, i), field) =>
    let (fatal, i, context) := Importer.parse i s.context ⟨packet, p.ts, field⟩
    (fatal, { s with context, importers := s.importers.setIfInBounds place i })

/-- The session with other packets waiting. -/
def withSorter (s : Session ι) (sorter : Sorter) : Session ι :=
  { s with context := { s.context with sorter } }

/-- Hands back the packet that comes first, and then the next, until none waits or a check fails. An
importer may queue packets meanwhile; there is no result if that never comes to an end. -/
def drain (s : Session ι) : Option (Option FatalCheck × Session ι) :=
  match s.context.sorter.pop? with
  | none => some (none, s)
  | some (p, sorter) =>
    match (s.withSorter sorter).parse p with
    | (some fatal, s) => some (some fatal, s)
    | (none, s) => s |>.drain
partial_fixpoint

/-- Takes in a whole trace and drains the queue. After an error nothing is drained. -/
def importTrace (s : Session ι) (source : Source) : Option (TraceOutcome × Session ι) :=
  let (packets, e) := source.packets
  let s := packets.foldl push s
  match e with
  | some cause => some (.failed ⟨s.packetsSeen + 1, cause⟩, s)
  | none => s.drain.map (Prod.map .ofFatal id)

end Session

end AtomTimeline
