import AtomTimeline.Packet.View
import AtomTimeline.Sorter
import AtomTimeline.Timeline

/-!
Importers: what an import session asks of a part that handles some fields of trace packets.

* An import runs in two passes. A packet is first offered (`Importer.tokenize`), and the importer
  may queue packets made of it; once every packet was offered, the queued ones are handed back in
  the order of their timestamps (`Importer.parse`). Both may write to the timeline and to the queue.
* Two kinds of importers make one (`Sum`), so a session may mix them.
-/

namespace AtomTimeline

/-- The answer of an importer to an offered packet. -/
inductive Verdict where
  /-- Another importer may have the packet. -/
  | ignored
  | handled
  deriving DecidableEq, Repr

/-- What importers may change. -/
structure Context where
  timeline : Timeline
  sorter : Sorter

/-- An empty timeline and no packets waiting. -/
def Context.initial : Context := ⟨.initial, .empty⟩

/-- A packet offered to the importer that owns one of its fields. -/
structure PacketOffer where
  packet : PacketView
  ts : Int64
  sequence : SequenceHandle
  /-- The field for which it is offered. -/
  field : UInt32
  deriving DecidableEq, Repr

/-- A queued packet handed back. -/
structure SortedPacket where
  packet : PacketView
  ts : Int64
  /-- The field for which it is handed back. -/
  field : UInt32
  deriving DecidableEq, Repr

/-- What handles some fields of trace packets. -/
class Importer (ι : Type) where
  /-- The fields it wants to see. -/
  fields : ι → List UInt32
  /-- Looks at a packet before the packets are in order. -/
  tokenize : ι → Context → PacketOffer → Verdict × ι × Context
  /-- Puts a packet on the timeline, the packets being in order. -/
  parse : ι → Context → SortedPacket → Option FatalCheck × ι × Context

instance {ι κ : Type} [Importer ι] [Importer κ] : Importer (ι ⊕ κ) where
  fields
    | .inl i => Importer.fields i
    | .inr k => Importer.fields k
  tokenize
    | .inl i, context, offer =>
      let (verdict, i, context) := Importer.tokenize i context offer
      (verdict, .inl i, context)
    | .inr k, context, offer =>
      let (verdict, k, context) := Importer.tokenize k context offer
      (verdict, .inr k, context)
  parse
    | .inl i, context, sorted =>
      let (fatal, i, context) := Importer.parse i context sorted
      (fatal, .inl i, context)
    | .inr k, context, sorted =>
      let (fatal, k, context) := Importer.parse k context sorted
      (fatal, .inr k, context)

end AtomTimeline
