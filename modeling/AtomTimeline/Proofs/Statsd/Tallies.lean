import AtomTimeline.Proofs.Session.TraceAtoms

/-!
What pushing a packet counts, and that recording atoms does not look at it.

* `Trace.packetCounts` is what a packet adds to the counters when it is pushed, read off its bytes.
* `Timeline.tally` adds counters to those of a timeline. `AtomImporter.queueBatch_eq`: splitting a
  batch does this and nothing else to the timeline.
* `AtomImporter.parse_tally`: handing back a packet does the same before and after counters were
  added. No step of recording an atom reads a counter.
-/

namespace AtomTimeline

/-! ### Adding counters -/

/-- The sums of the counters. -/
def Counters.plus (c added : Counters) : Counters where
  atomTimestampMissing := c.atomTimestampMissing + added.atomTimestampMissing
  atomUnknown := c.atomUnknown + added.atomUnknown
  sliceOutOfOrder := c.sliceOutOfOrder + added.sliceOutOfOrder
  packetMalformed := c.packetMalformed + added.packetMalformed
  packetIgnored := c.packetIgnored + added.packetIgnored

namespace Counters

lemma plus_zero (c : Counters) : c.plus .zero = c := by
  simp only [plus, zero, Int64.add_zero]

lemma plus_add (c added : Counters) (stat : Stat) (n : Int64) :
    c.plus (added.add stat n) = (c.plus added).add stat n := by
  cases stat <;> simp only [plus, add, Int64.add_assoc]

lemma add_plus (c added : Counters) (stat : Stat) (n : Int64) :
    (c.add stat n).plus added = (c.plus added).add stat n := by
  have hcomm : ∀ a b : Int64, a + n + b = a + b + n := fun a b => by
    rw [Int64.add_assoc, Int64.add_comm n, ← Int64.add_assoc]
  cases stat <;> simp only [plus, add, hcomm]

end Counters

/-- The tables with counters added. -/
def Storage.tally (added : Counters) (st : Storage) : Storage :=
  { st with counters := st.counters.plus added }

/-- The timeline with counters added. -/
def Timeline.tally (added : Counters) (t : Timeline) : Timeline :=
  { t with storage := t.storage.tally added }

/-! ### What pushing counts -/

/-- What splitting a batch counts. -/
def Batch.counts (batch : Batch) : Counters :=
  (Counters.zero.add .packetMalformed (if batch.malformed then 1 else 0)).add .atomTimestampMissing
    (Int64.ofNat batch.missingTimestamps)

/-- What a packet adds to the counters when it is pushed. -/
def Trace.packetCounts (b : Bytes) : Counters :=
  if readable b then
    ((batch? b).map Batch.counts).getD (Counters.zero.add .packetIgnored 1)
  else Counters.zero.add .packetMalformed 1

/-- The timeline once these packets were pushed and nothing was handed back. -/
def Timeline.tallyPackets (t : Timeline) (packets : List Bytes) : Timeline :=
  packets.foldl (fun t b => t.tally (Trace.packetCounts b)) t

lemma Timeline.count_eq_tally (t : Timeline) (stat : Stat) :
    t.count stat = t.tally (Counters.zero.add stat 1) := by
  rw [tally, Storage.tally, Counters.plus_add, Counters.plus_zero]
  rfl

/-- A packet without a batch is not split. -/
lemma AtomImporter.tokenize_of_no_batch (context : Context) (offer : PacketOffer)
    (h : offer.packet.statsd = none) : tokenize context offer = (.ignored, context) := by
  rw [tokenize, h]
  split <;> rfl

lemma AtomImporter.tokenize_of_batch (context : Context) (offer : PacketOffer) {b : Bytes}
    (hfield : offer.field = PacketField.statsdAtom) (h : offer.packet.statsd = some b) :
    tokenize context offer = (.handled, queueBatch context (Batch.decode b) offer) := by
  rw [tokenize, if_neg (by simpa using hfield), h]

/-- Splitting a batch queues its atoms and counts what is wrong with it. -/
lemma AtomImporter.queueBatch_eq (context : Context) (batch : Batch) (offer : PacketOffer) :
    queueBatch context batch offer =
      { timeline := context.timeline.tally batch.counts
        sorter := ((batch.resolved offer.ts).map (timedAtom offer.sequence)).foldl Sorter.push
          context.sorter } := by
  rw [queueBatch, count_of_condition, Timeline.tally, Storage.tally, Batch.counts,
    Counters.plus_add, Counters.plus_add, Counters.plus_zero]
  rfl

variable {added : Counters}

/-! ### The tables -/

namespace Storage

lemma countBy_tally (st : Storage) (stat : Stat) (n : Int64) :
    (st.tally added).countBy stat n = (st.countBy stat n).tally added := by
  rw [countBy, countBy, tally, tally, Counters.add_plus]

lemma count_tally (st : Storage) (stat : Stat) :
    (st.tally added).count stat = (st.count stat).tally added := countBy_tally st stat 1

lemma store_tally (st : Storage) (v : ReadValue) :
    (st.tally added).store v = Prod.map id (tally added) (st.store v) := by
  cases v <;> rfl

lemma insertArg_tally (st : Storage) (slice : SliceId) (arg : Arg) :
    (st.tally added).insertArg slice arg = (st.insertArg slice arg).tally added := by
  rw [insertArg, store_tally]
  rfl

lemma insertArgs_tally (st : Storage) (slice : SliceId) (args : List Arg) :
    (st.tally added).insertArgs slice args = (st.insertArgs slice args).tally added := by
  induction args generalizing st with
  | nil => rfl
  | cons arg args ih =>
      rw [insertArgs, List.foldl_cons, insertArg_tally]
      exact ih _

end Storage

/-! ### Recording an atom -/

namespace NameCache

lemma ask_tally (schema : AtomSchema) (st : Storage) (atomId : UInt32) :
    ask schema (st.tally added) atomId =
      Prod.map id (Prod.map id (Storage.tally added)) (ask schema st atomId) := by
  rw [ask, ask]
  cases schema.lookup atomId with
  | noSchema =>
      rw [Storage.count_tally]
      rfl
  | known declared => rfl
  | unknown => rfl

lemma resolve_tally (cache : NameCache) (schema : AtomSchema) (st : Storage) (atomId : UInt32) :
    cache.resolve schema (st.tally added) atomId =
      Prod.map id (Prod.map id (Storage.tally added)) (cache.resolve schema st atomId) := by
  rw [resolve, resolve]
  cases cache.entries[atomId]? with
  | some atom => rfl
  | none =>
      simp only [ask_tally]
      rfl

end NameCache

namespace Timeline

lemma count_tally (t : Timeline) (stat : Stat) :
    (t.tally added).count stat = (t.count stat).tally added := by
  rw [count, mapStorage, tally, Storage.count_tally]
  rfl

lemma ite_count_tally (p : Prop) [Decidable p] (t : Timeline) (stat : Stat) :
    (if p then (t.tally added).count stat else t.tally added) =
      (if p then t.count stat else t).tally added := by
  rw [count_tally, apply_ite (tally added)]

lemma globalTrack_tally (t : Timeline) (name : StringId) :
    (t.tally added).globalTrack name = Prod.map id (tally added) (t.globalTrack name) := by
  rw [globalTrack, globalTrack]
  cases htrack : t.globalTracks[name]? with
  | some track =>
      rw [show (t.tally added).globalTracks[name]? = some track from htrack]
      rfl
  | none =>
      rw [show (t.tally added).globalTracks[name]? = none from htrack]
      rfl

lemma addSlice_tally (t : Timeline) (ts : Int64) (track : TrackId) (category name : StringId)
    (dur : Int64) :
    (t.tally added).addSlice ts track category name dur =
      Prod.map id (tally added) (t.addSlice ts track category name dur) := by
  cases hout : t.outOfOrder ts track with
  | true =>
      have hout' : (t.tally added).outOfOrder ts track = true := hout
      rw [addSlice_of_outOfOrder hout, addSlice_of_outOfOrder hout', count_tally]
      rfl
  | false =>
      have hout' : (t.tally added).outOfOrder ts track = false := hout
      rw [addSlice_of_inOrder hout, addSlice_of_inOrder hout']
      rfl

end Timeline

namespace AtomImporter

variable (i : AtomImporter) (t : Timeline)

lemma internTrack_tally :
    i.internTrack (t.tally added) =
      Prod.map id (Prod.map id (Timeline.tally added)) (i.internTrack t) := by
  rw [internTrack, internTrack]
  cases i.track with
  | some track => rfl
  | none =>
      have hintern : (t.tally added).intern i.trackName =
        Prod.map id (Timeline.tally added) (t.intern i.trackName) := rfl
      simp only [hintern, Prod.map, Timeline.globalTrack_tally]
      rfl

lemma recordArgs_tally (slice : SliceId) (result : ArgsResult) :
    recordArgs (t.tally added) slice result =
      Prod.map id (Timeline.tally added) (recordArgs t slice result) := by
  have hinsert : (t.tally added).storage.insertArgs slice result.args =
    (t.storage.insertArgs slice result.args).tally added := Storage.insertArgs_tally _ _ _
  simp only [recordArgs, Storage.insertOffers_map_arg, hinsert]
  exact congrArg (Prod.mk none)
    (Timeline.ite_count_tally _ { t with storage := t.storage.insertArgs slice result.args } _)

/-- Recording an atom reads no counter. -/
theorem parseAtom_tally (ts : Int64) (payload : Bytes) :
    i.parseAtom (t.tally added) ts payload =
      Prod.map id (Prod.map id (Timeline.tally added)) (i.parseAtom t ts payload) := by
  rcases hresolve : i.names.resolve i.schema t.storage
    (((firstField? payload).map Field.id).getD 0) with ⟨atom, names, storage⟩
  rcases htrack : internTrack { i with names } { t with storage } with ⟨track, next, during⟩
  rcases hadd : during.addSlice ts track .empty atom.name 0 with ⟨place, after⟩
  have hresolve' : i.names.resolve i.schema (t.tally added).storage
      (((firstField? payload).map Field.id).getD 0) = (atom, names, storage.tally added) := by
    rw [Timeline.tally, NameCache.resolve_tally, hresolve]
    rfl
  have htrack' : internTrack { i with names }
      { t.tally added with storage := storage.tally added } =
        (track, next, during.tally added) := by
    refine (internTrack_tally { i with names } { t with storage }).trans ?_
    rw [htrack]
    rfl
  have hadd' : (during.tally added).addSlice ts track .empty atom.name 0 =
      (place, after.tally added) := by
    rw [Timeline.addSlice_tally, hadd]
    rfl
  simp only [parseAtom, hresolve, htrack, hadd, hresolve', htrack', hadd']
  cases place with
  | none => rfl
  | some slice =>
      simp only [Timeline.ite_count_tally, recordArgs_tally]
      rfl

/-- **Handing back a packet reads no counter**: it does the same before and after counters were
added. -/
theorem parse_tally (sorted : SortedPacket) :
    i.parse (t.tally added) sorted =
      Prod.map id (Prod.map id (Timeline.tally added)) (i.parse t sorted) := by
  rw [parse, parse]
  split
  · rfl
  · split
    · exact parseAtom_tally i t sorted.ts _
    · rfl

end AtomImporter

end AtomTimeline
