import AtomTimeline.Session.TraceFile
import AtomTimeline.Proofs.Session.AtomQueue
import AtomTimeline.Proofs.Session.TraceAtoms
import AtomTimeline.Proofs.Statsd.StringRoom

/-!
A session with one importer of atoms puts the atoms of a trace on the timeline in stable order.

* `Session.Importing` is the invariant: which atoms wait in the queue and which are recorded.
  `Session.Importing.push`: a packet puts its atoms into the stable order of those that wait.
  `Session.Importing.drain`: the end of the file records those that wait, one after the other.
* `Session.import_eq_sortByTime`: so the slices of a trace are its atoms (`Trace.atoms`) in the
  stable order of their timestamps, row for row.
-/

namespace AtomTimeline

/-- Atoms that come in order behind those recorded are all recorded. -/
lemma foldl_recordNext {recorded waiting : List StampedAtom}
    (h : InTime Prod.fst (recorded ++ waiting)) :
    waiting.foldl recordNext recorded = recorded ++ waiting := by
  induction waiting generalizing recorded with
  | nil => rw [List.foldl_nil, List.append_nil]
  | cons atom waiting ih =>
      have haccept : refuses recorded atom.1 = false := by
        rw [refuses, Option.any_eq_false]
        intro last hlast
        have hle : last.1 ≤ atom.1 := (List.pairwise_append.mp h).2.2 last
          (List.mem_of_getLast? hlast) atom List.mem_cons_self
        simpa using Int64.not_lt.mpr hle
      rw [List.foldl_cons, recordNext, haccept, if_neg Bool.false_ne_true, ih]
      · rw [List.append_assoc, List.singleton_append]
      · rwa [List.append_assoc, List.singleton_append]

namespace Session

variable {s after : Session AtomImporter} {i next : AtomImporter} {place : ℕ} {schema : AtomSchema}
  {trackName : String} {waiting recorded : List StampedAtom}

/-! ### A session with one importer -/

/-- The importer in this place owns the field of batches, and no other field has an owner. -/
def Serves (s : Session AtomImporter) (place : ℕ) (i : AtomImporter) : Prop :=
  ∀ field, s.owner? field = if field = PacketField.statsdAtom then some (place, i) else none

lemma register_ofSchema (warns : Bool) (schema : AtomSchema) (trackName : String) :
    initial.register warns (.ofSchema schema trackName) =
      (none, (⟨.initial, #[.ofSchema schema trackName],
        (∅ : Std.HashMap UInt32 ℕ).insert PacketField.statsdAtom 0, 0, ∅, 0⟩ :
          Session AtomImporter)) := by
  have hclaim : claim warns (initial : Session AtomImporter).importers.size
      (Importer.fields (AtomImporter.ofSchema schema trackName))
      (initial : Session AtomImporter).owners =
        (none, (∅ : Std.HashMap UInt32 ℕ).insert PacketField.statsdAtom 0) := by
    simp only [Importer.fields, initial, claim, Std.HashMap.getElem?_empty, List.size_toArray,
      List.length_nil]
  rw [register, hclaim]
  rfl

/-- A session that imports atoms is one to which the importer was added, whether warnings are
written or not. -/
lemma register_eq_forAtoms (warns : Bool) (schema : AtomSchema) (trackName : String) :
    initial.register warns (.ofSchema schema trackName) =
      (none, forAtoms schema trackName) := by
  rw [forAtoms, register_ofSchema, register_ofSchema]

lemma context_forAtoms (schema : AtomSchema) (trackName : String) :
    (forAtoms schema trackName).context = .initial := by
  rw [forAtoms, register_ofSchema]

lemma latestTimestamp_forAtoms (schema : AtomSchema) (trackName : String) :
    (forAtoms schema trackName).latestTimestamp = 0 := by
  rw [forAtoms, register_ofSchema]

lemma serves_forAtoms (schema : AtomSchema) (trackName : String) :
    (forAtoms schema trackName).Serves 0 (.ofSchema schema trackName) := by
  intro field
  rw [forAtoms, register_ofSchema, owner?, Std.HashMap.getElem?_insert]
  by_cases hfield : field = PacketField.statsdAtom
  · subst hfield
    simp
  · have hne : ¬ PacketField.statsdAtom = field := fun h => hfield h.symm
    simp [hfield, hne]

lemma Serves.replaced (h : s.Serves place i) (howners : after.owners = s.owners)
    (himporters : after.importers = s.importers.setIfInBounds place next) :
    after.Serves place next := by
  intro field
  rw [owner?_of_replaced howners himporters, h field]
  split <;> simp

/-! ### Offering a packet -/

/-- Packets were queued since; of the timeline only counters changed. -/
structure Queues (s after : Session AtomImporter) (place : ℕ) (i : AtomImporter)
    (ps : List TimedPacket) : Prop where
  serves : after.Serves place i
  sorter : after.context.sorter = ps.foldl Sorter.push s.context.sorter
  timeline : ∃ counters, after.context.timeline =
    { s.context.timeline with storage := { s.context.timeline.storage with counters } }

lemma Queues.trans {mid : Session AtomImporter} {ps qs : List TimedPacket}
    (h : s.Queues mid place i ps) (h' : mid.Queues after place i qs) :
    s.Queues after place i (ps ++ qs) := by
  obtain ⟨counters, ht⟩ := h.timeline
  obtain ⟨counters', ht'⟩ := h'.timeline
  refine ⟨h'.serves, ?_, ⟨counters', ?_⟩⟩
  · rw [h'.sorter, h.sorter, List.foldl_append]
  · rw [ht', ht]

/-- The importer queues the atoms of the packet it was offered. -/
lemma Serves.offered (h : s.Serves place i) (o : PacketOffer) :
    s.Queues (s.offered place i o) place i (AtomImporter.tokens o) := by
  exact ⟨h.replaced rfl rfl, AtomImporter.sorter_tokenize s.context o,
    AtomImporter.timeline_tokenize s.context o⟩

/-- A packet is split if it has a field of batches, whatever fields are in front of it. -/
lemma Serves.offer (h : s.Serves place i) (packet : PacketView) (ts : Int64)
    (sequence : SequenceHandle) (fields : List UInt32) :
    s.Queues (s.offer packet ts sequence fields) place i
      (if PacketField.statsdAtom ∈ fields then
        AtomImporter.tokens ⟨packet, ts, sequence, PacketField.statsdAtom⟩ else []) := by
  induction fields generalizing s with
  | nil => exact ⟨h, rfl, ⟨_, rfl⟩⟩
  | cons field fields ih =>
      by_cases hfield : field = PacketField.statsdAtom
      · subst hfield
        have howner : s.owner? PacketField.statsdAtom = some (place, i) := by rw [h, if_pos rfl]
        have hqueued := h.offered ⟨packet, ts, sequence, PacketField.statsdAtom⟩
        rw [if_pos List.mem_cons_self]
        cases hverdict : (AtomImporter.tokenize s.context
            ⟨packet, ts, sequence, PacketField.statsdAtom⟩).1 with
        | handled =>
            rw [offer_of_handled howner hverdict]
            exact hqueued
        | ignored =>
            have hnone := AtomImporter.tokens_of_ignored hverdict
            have hrest := hqueued.trans (ih hqueued.serves)
            rw [offer_of_ignored howner hverdict]
            simpa only [hnone, List.nil_append, ite_self] using hrest
      · have hnone : s.owner? field = none := by rw [h, if_neg hfield]
        have hmem : PacketField.statsdAtom ∈ field :: fields ↔ PacketField.statsdAtom ∈ fields := by
          simp [Ne.symm hfield]
        rw [offer_of_no_owner hnone]
        simp only [hmem]
        exact ih h

/-- Whatever fields a packet has, it is split just as its batch says. -/
lemma tokens_of_fieldIds (b : Bytes) (ts : Int64) (sequence : SequenceHandle) :
    (if PacketField.statsdAtom ∈ (PacketView.decode b).fieldIds then
      AtomImporter.tokens ⟨PacketView.decode b, ts, sequence, PacketField.statsdAtom⟩ else []) =
      AtomImporter.tokens ⟨PacketView.decode b, ts, sequence, PacketField.statsdAtom⟩ := by
  split
  · rfl
  · next hmem =>
    rw [AtomImporter.tokens, if_pos rfl]
    cases hstatsd : (PacketView.decode b).statsd with
    | none => rfl
    | some batch => exact absurd (Trace.statsdAtom_mem_fieldIds hstatsd) hmem

/-! ### Pushing a packet -/

lemma enterTime_decode {ι : Type} (s : Session ι) (b : Bytes) :
    (s.enterTime (PacketView.decode b)).1 = Trace.packetTime s.latestTimestamp b := by
  rw [enterTime, Trace.packetTime, ← Trace.timestamp_decode]
  cases (PacketView.decode b).timestamp <;> rfl

/-- The latest timestamp after a packet. -/
lemma latestTimestamp_push {ι : Type} [Importer ι] (s : Session ι) (b : Bytes) :
    (s.push b).latestTimestamp = Trace.nextTime s.latestTimestamp b := by
  have hread := Trace.malformed_decode b
  cases hgood : Trace.readable b with
  | false =>
      rw [push_of_malformed (by rw [hread, hgood]; rfl), Trace.nextTime, hgood,
        if_neg Bool.false_ne_true]
      rfl
  | true =>
      rw [push_of_readable (by rw [hread, hgood]; rfl), Trace.nextTime, hgood, if_pos rfl]
      refine Eq.trans (offer_induction
        (P := fun after => after.latestTimestamp = (s.entered _).latestTimestamp)
        (fun _ h => h) (fun _ _ _ _ _ h => h) _ _ rfl) ?_
      rw [← Trace.timestamp_decode, entered, enterTime]
      cases (PacketView.decode b).timestamp <;> rfl

/-- Pushing a packet queues the atoms in it. -/
lemma Serves.push (h : s.Serves place i) (b : Bytes) :
    ∃ ps, s.Queues (s.push b) place i ps ∧ (∀ p ∈ ps, ∃ payload, p.HoldsAtom payload) ∧
      ps.map TimedPacket.atom = Trace.packetAtoms s.latestTimestamp b := by
  have hread := Trace.malformed_decode b
  cases hgood : Trace.readable b with
  | false =>
      rw [push_of_malformed (by rw [hread, hgood]; rfl)]
      refine ⟨[], ⟨h, rfl, ⟨_, rfl⟩⟩, by simp, ?_⟩
      rw [Trace.packetAtoms, hgood, if_neg Bool.false_ne_true, List.map_nil]
  | true =>
      have hentered : (s.entered (PacketView.decode b)).Serves place i := by
        intro field
        rw [owner?, owners_entered, importers_entered]
        exact h field
      have hqueued := hentered.offer (PacketView.decode b)
        (s.enterTime (PacketView.decode b)).1 (s.enterSequence (PacketView.decode b)).1
        (PacketView.decode b).fieldIds
      rw [tokens_of_fieldIds] at hqueued
      have hcontext : (s.entered (PacketView.decode b)).context = s.context := context_entered _ _
      rw [push_of_readable (by rw [hread, hgood]; rfl)]
      refine ⟨AtomImporter.tokens ⟨PacketView.decode b, (s.enterTime (PacketView.decode b)).1,
        (s.enterSequence (PacketView.decode b)).1, PacketField.statsdAtom⟩,
        ⟨hqueued.serves, ?_, ?_⟩, ?_, ?_⟩
      · rw [hqueued.sorter, hcontext]
      · rw [← hcontext]
        exact hqueued.timeline
      · intro p hp
        exact AtomImporter.holdsAtom_of_mem_tokens (b := b) rfl hp
      · rw [Trace.map_atom_tokens, enterTime_decode, Trace.packetAtoms, hgood, if_pos rfl]

/-! ### What waits and what is recorded -/

/-- These atoms wait, in the stable order of their timestamps, and these others are recorded. -/
structure Importing (s : Session AtomImporter) (place : ℕ) (schema : AtomSchema)
    (trackName : String) (waiting recorded : List StampedAtom) : Prop where
  importer : ∃ i, s.Serves place i ∧ i.Recorded s.context.timeline schema trackName recorded
  sorted : s.context.sorter.Sorted
  holds : ∀ p ∈ s.context.sorter.queue, ∃ payload, p.HoldsAtom payload
  waiting_eq : s.context.sorter.queue.map TimedPacket.atom = waiting

lemma importing_forAtoms (schema : AtomSchema) (trackName : String) :
    (forAtoms schema trackName).Importing 0 schema trackName [] [] where
  importer := by
    refine ⟨_, serves_forAtoms schema trackName, ?_⟩
    rw [context_forAtoms]
    exact AtomImporter.recorded_initial schema trackName
  sorted := by
    rw [context_forAtoms]
    exact Sorter.sorted_empty
  holds := by
    rw [context_forAtoms]
    intro p hp
    cases hp
  waiting_eq := by
    rw [context_forAtoms]
    rfl

/-- **Pushing a packet** puts its atoms into the stable order of those that wait. -/
theorem Importing.push (h : s.Importing place schema trackName waiting recorded) (b : Bytes) :
    (s.push b).Importing place schema trackName
      (sortByTime Prod.fst (waiting ++ Trace.packetAtoms s.latestTimestamp b)) recorded := by
  obtain ⟨i, hserves, hrecorded⟩ := h.importer
  obtain ⟨ps, hqueued, hholds, hatoms⟩ := hserves.push b
  obtain ⟨counters, htimeline⟩ := hqueued.timeline
  have hqueue : (s.push b).context.sorter.queue =
      sortByTime TimedPacket.ts (s.context.sorter.queue ++ ps) := by
    rw [hqueued.sorter, Sorter.queue_foldl_push h.sorted]
  refine ⟨⟨i, hqueued.serves, ?_⟩, ?_, ?_, ?_⟩
  · rw [htimeline]
    exact hrecorded.setCounters counters
  · rw [hqueued.sorter]
    exact Sorter.sorted_foldl_push h.sorted ps
  · intro p hp
    rw [hqueue, (sortByTime_perm _ _).mem_iff, List.mem_append] at hp
    exact hp.elim (h.holds p) (hholds p)
  · calc (s.push b).context.sorter.queue.map TimedPacket.atom
        = (sortByTime (Prod.fst ∘ TimedPacket.atom) (s.context.sorter.queue ++ ps)).map
            TimedPacket.atom := by rw [hqueue]; rfl
      _ = sortByTime Prod.fst ((s.context.sorter.queue ++ ps).map TimedPacket.atom) :=
            map_sortByTime TimedPacket.atom _
      _ = sortByTime Prod.fst (waiting ++ Trace.packetAtoms s.latestTimestamp b) := by
            rw [List.map_append, h.waiting_eq, hatoms]

/-- After packets, their atoms wait in stable order, and nothing more is recorded. -/
lemma importing_foldl_push (schema : AtomSchema) (trackName : String) (packets : List Bytes) :
    (packets.foldl Session.push (forAtoms schema trackName)).Importing 0 schema trackName
        (sortByTime Prod.fst (Trace.atoms packets)) [] ∧
      (packets.foldl Session.push (forAtoms schema trackName)).latestTimestamp =
        Trace.latestTime packets := by
  induction packets using List.reverseRecOn with
  | nil =>
      rw [Trace.atoms_nil, show sortByTime Prod.fst ([] : List StampedAtom) = [] from
        List.mergeSort_nil]
      exact ⟨importing_forAtoms schema trackName, latestTimestamp_forAtoms schema trackName⟩
  | append_singleton packets b ih =>
      obtain ⟨himporting, hlatest⟩ := ih
      have hnext := himporting.push b
      rw [hlatest, sortByTime_sortByTime_append, ← Trace.atoms_append_singleton] at hnext
      rw [List.foldl_append, List.foldl_cons, List.foldl_nil]
      exact ⟨hnext, by rw [latestTimestamp_push, hlatest, Trace.latestTime_append_singleton]⟩

/-- Pushing packets interns no string. -/
lemma strings_foldl_push (schema : AtomSchema) (trackName : String) (packets : List Bytes) :
    (packets.foldl Session.push (forAtoms schema trackName)).storage.strings = .initial := by
  induction packets using List.reverseRecOn with
  | nil => exact congrArg (·.timeline.storage.strings) (context_forAtoms schema trackName)
  | append_singleton packets b ih =>
      obtain ⟨i, hserves, -⟩ := (importing_foldl_push schema trackName packets).1.importer
      obtain ⟨ps, hqueued, -⟩ := hserves.push b
      obtain ⟨counters, htimeline⟩ := hqueued.timeline
      rw [List.foldl_append, List.foldl_cons, List.foldl_nil, storage, htimeline]
      exact ih

/-! ### Draining the queue -/

/-- A packet of one atom is handed to the importer, which records or refuses the atom. -/
lemma Serves.parse (h : s.Serves place i)
    (hrecorded : i.Recorded s.context.timeline schema trackName recorded) {p : TimedPacket}
    {payload : Bytes} (hp : p.HoldsAtom payload) :
    ∃ next after, s.parse p = (none, after) ∧ after.Serves place next ∧
      next.Recorded after.context.timeline schema trackName (recordNext recorded p.atom) ∧
      (∀ stat, after.storage.counters.get stat = s.storage.counters.get stat +
        schema.growth payload (refuses recorded p.ts) stat) ∧
      (refuses recorded p.ts = true → after.storage.slices = s.storage.slices) ∧
      after.context.sorter = s.context.sorter ∧
      after.storage.strings.strings.size ≤
        s.storage.strings.strings.size + schema.payloadRoom payload := by
  have hrecipient : s.recipient? (PacketView.decode p.blob) =
      some ((place, i), PacketField.statsdAtom) := by
    have hts := h PacketField.timestamp
    have hatom := h PacketField.statsdAtom
    rw [if_neg (by decide)] at hts
    rw [if_pos rfl] at hatom
    simp only [recipient?, hp.fieldIds_eq, List.findSome?_cons, hts, hatom, Option.map_none,
      Option.map_some]
  obtain ⟨next, timeline, hparse, hnext, hcounters, hrefused⟩ := hrecorded.parseAtom p.ts payload
  have himporter : Importer.parse i s.context (p.handedFor PacketField.statsdAtom) =
      (none, next, { s.context with timeline }) := by
    have hread := (AtomImporter.parse_of_holdsAtom hp i s.context.timeline).trans hparse
    rw [AtomImporter.parse_eq, TimedPacket.handedFor, hread]
  have hsession := parse_of_recipient hrecipient
  rw [handed, himporter] at hsession
  have hsize := hrecorded.size_parseAtom_le p.ts payload
  rw [hparse] at hsize
  refine ⟨next, _, hsession, h.replaced rfl rfl, ?_, hcounters, fun hr => ?_, rfl, hsize⟩
  · rw [hp.atom_eq]
    exact hnext
  · obtain ⟨strings, counters, rfl⟩ := hrefused hr
    rfl

/-- **Handing back the packet that comes first** records or refuses its atom; the others wait
still. -/
theorem Importing.parse (h : s.Importing place schema trackName waiting recorded)
    {p : TimedPacket} {sorter : Sorter} (hpop : s.context.sorter.pop? = some (p, sorter)) :
    ∃ mid rest, (s.withSorter sorter).parse p = (none, mid) ∧ mid.context.sorter = sorter ∧
      waiting = p.atom :: rest ∧
      mid.Importing place schema trackName rest (recordNext recorded p.atom) ∧
      mid.storage.strings.strings.size ≤
        s.storage.strings.strings.size + schema.payloadRoom p.atom.2 := by
  obtain ⟨i, hserves, hrecorded⟩ := h.importer
  have hqueue := Sorter.queue_of_pop? hpop
  obtain ⟨payload, hp⟩ := h.holds p (hqueue ▸ List.mem_cons_self)
  have hserved : (s.withSorter sorter).Serves place i := hserves
  obtain ⟨next, mid, hparse, hnext, hshows, -, -, hsorter, hsize⟩ := hserved.parse hrecorded hp
  have hsorted := h.sorted
  rw [Sorter.Sorted, hqueue] at hsorted
  have hpayload : p.atom.2 = payload := congrArg Prod.snd hp.atom_eq
  rw [← hpayload] at hsize
  refine ⟨mid, sorter.queue.map TimedPacket.atom, hparse, hsorter, ?_,
    ⟨⟨next, hnext, hshows⟩, ?_, ?_, ?_⟩, hsize⟩
  · rw [← h.waiting_eq, hqueue, List.map_cons]
  · rw [hsorter]
    exact (List.pairwise_cons.mp hsorted).2
  · rw [hsorter]
    exact fun q hq => h.holds q (hqueue ▸ List.mem_cons_of_mem p hq)
  · rw [hsorter]
    rfl

/-- Handing back what waits leads to these records, and to no more strings than this. -/
def LeadsTo (s : Session AtomImporter) (place : ℕ) (schema : AtomSchema) (trackName : String)
    (recorded : List StampedAtom) (most : ℕ) : Prop :=
  ∃ waiting earlier, s.Importing place schema trackName waiting earlier ∧
    waiting.foldl recordNext earlier = recorded ∧
    s.storage.strings.strings.size + schema.room waiting ≤ most

lemma LeadsTo.parse {most : ℕ} (h : s.LeadsTo place schema trackName recorded most)
    {p : TimedPacket} {sorter : Sorter} (hpop : s.context.sorter.pop? = some (p, sorter)) :
    ∃ mid, (s.withSorter sorter).parse p = (none, mid) ∧ mid.context.sorter = sorter ∧
      mid.LeadsTo place schema trackName recorded most := by
  obtain ⟨waiting, earlier, himporting, hrecorded, hmost⟩ := h
  obtain ⟨mid, rest, hparse, hsorter, rfl, hmid, hsize⟩ := himporting.parse hpop
  rw [schema.room_cons] at hmost
  exact ⟨mid, hparse, hsorter, rest, _, hmid, hrecorded, by omega⟩

/-- **Draining the queue** comes to an end; it fails no check and records what waits, one atom after
the other, and interns no more strings than there is room for. -/
theorem Importing.drain (h : s.Importing place schema trackName waiting recorded) :
    ∃ after, s.drain = some (none, after) ∧ after.context.sorter = .empty ∧
      after.Importing place schema trackName [] (waiting.foldl recordNext recorded) ∧
      after.storage.strings.strings.size ≤
        s.storage.strings.strings.size + schema.room waiting := by
  obtain ⟨after, hdrain, hempty, waiting', earlier, hafter, hrecorded, hmost⟩ :=
    exists_drain_of_parse (fun _ _ _ hs hpop => LeadsTo.parse hs hpop)
      ⟨waiting, recorded, h, rfl, le_rfl⟩
  obtain rfl : waiting' = [] := by
    rw [← hafter.waiting_eq, hempty]
    rfl
  rw [← hrecorded]
  exact ⟨after, hdrain, hempty, hafter, hmost⟩

end Session

end AtomTimeline
