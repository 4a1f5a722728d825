import AtomTimeline.Proofs.Session.AtomImport
import AtomTimeline.Proofs.Statsd.Tallies

/-!
Importing a trace in two parts.

* `Arrivals` is what a session remembers of the packets that were pushed, `Session.single` a session
  with one importer of atoms made of the parts it consists of. `Session.push_single` and
  `Session.drain_single` say which parts the two calls read and change: a push the arrivals, the
  queue and the counters, the end of a file the importer and the timeline.
* `foldl_handBack_tallyPackets`: what is handed back does not depend on what was pushed in between.
* `Session.imported_append`: so when no atom of the second part is earlier than one of the first,
  the importer and the timeline do not tell whether the two parts were imported as one.
* `Session.run_in_two_parts`: announcing the end of a file between such parts changes nothing.
-/

namespace AtomTimeline

/-- The atoms of packets in the order of the packets, the latest timestamp before them being
given. -/
def Trace.atomsFrom (latest : Int64) : List Bytes → List StampedAtom
  | [] => []
  | b :: packets => packetAtoms latest b ++ atomsFrom (nextTime latest b) packets

/-- A packet of one atom has that atom, under its timestamp. -/
lemma Trace.packetAtoms_singletonPacket {payload : Bytes} (h : FitsBatch payload)
    (latest ts : Int64) :
    packetAtoms latest (singletonPacket ts payload) = [(ts, payload)] := by
  have hdecode := PacketView.decode_singletonPacket h ts
  have hreadable := malformed_decode (singletonPacket ts payload)
  have htime := timestamp_decode (singletonPacket ts payload)
  have hbatch := statsd_decode (singletonPacket ts payload)
  rw [hdecode] at hreadable htime hbatch
  rw [packetAtoms, packetTime, ← htime, ← hbatch, Option.map_some, Option.map_some,
    Batch.decode_encode_singleton h, if_pos (by simpa using hreadable.symm)]
  simp [stamped]

/-! ### Packets that arrive -/

/-- What a session remembers of the packets that were pushed. -/
structure Arrivals where
  latestTimestamp : Int64
  generations : Std.HashMap UInt32 UInt32
  packetsSeen : ℕ

namespace Arrivals

/-- No packet was pushed yet. -/
def initial : Arrivals := ⟨0, ∅, 0⟩

/-- The sequence of a packet that arrives. -/
def sequence (a : Arrivals) (packet : PacketView) : SequenceHandle where
  id := packet.sequenceId.getD 0
  generation :=
    if packet.cleared then a.generations.getD (packet.sequenceId.getD 0) 0 + 1
    else a.generations.getD (packet.sequenceId.getD 0) 0

/-- What is remembered once a packet has arrived. -/
def next (a : Arrivals) (b : Bytes) : Arrivals where
  latestTimestamp := Trace.nextTime a.latestTimestamp b
  generations :=
    if Trace.readable b then
      a.generations.insert (a.sequence (PacketView.decode b)).id
        (a.sequence (PacketView.decode b)).generation
    else a.generations
  packetsSeen := a.packetsSeen + 1

/-- The packets of one atom that are queued for a packet that arrives. -/
def tokens (a : Arrivals) (b : Bytes) : List TimedPacket :=
  if Trace.readable b then
    AtomImporter.tokens ⟨PacketView.decode b, Trace.packetTime a.latestTimestamp b,
      a.sequence (PacketView.decode b), PacketField.statsdAtom⟩
  else []

/-- The packets of one atom that are queued for packets that arrive one after the other. -/
def tokensOf (a : Arrivals) : List Bytes → List TimedPacket
  | [] => []
  | b :: packets => a.tokens b ++ (a.next b).tokensOf packets

lemma tokensOf_append (a : Arrivals) (front back : List Bytes) :
    a.tokensOf (front ++ back) = a.tokensOf front ++ (front.foldl next a).tokensOf back := by
  induction front generalizing a with
  | nil => rfl
  | cons b front ih =>
      rw [List.cons_append, tokensOf, tokensOf, ih, List.append_assoc, List.foldl_cons]

lemma latestTimestamp_foldl_next (a : Arrivals) (packets : List Bytes) :
    (packets.foldl next a).latestTimestamp = packets.foldl Trace.nextTime a.latestTimestamp := by
  induction packets generalizing a with
  | nil => rfl
  | cons b packets ih => exact ih (a.next b)

lemma map_atom_tokens (a : Arrivals) (b : Bytes) :
    (a.tokens b).map TimedPacket.atom = Trace.packetAtoms a.latestTimestamp b := by
  rw [tokens, Trace.packetAtoms]
  split
  · exact Trace.map_atom_tokens _ _
  · rfl

/-- The packets of one atom hold the atoms of the packets that arrive. -/
lemma map_atom_tokensOf (a : Arrivals) (packets : List Bytes) :
    (a.tokensOf packets).map TimedPacket.atom = Trace.atomsFrom a.latestTimestamp packets := by
  induction packets generalizing a with
  | nil => rfl
  | cons b packets ih =>
      rw [tokensOf, List.map_append, map_atom_tokens, ih (a.next b), Trace.atomsFrom]
      rfl

lemma holdsAtom_of_mem_tokensOf {a : Arrivals} {packets : List Bytes} {p : TimedPacket}
    (h : p ∈ a.tokensOf packets) : ∃ payload, p.HoldsAtom payload := by
  induction packets generalizing a with
  | nil => cases h
  | cons b packets ih =>
      rw [tokensOf, List.mem_append] at h
      rcases h with h | h
      · rw [tokens] at h
        split at h
        · exact AtomImporter.holdsAtom_of_mem_tokens (b := b) rfl h
        · cases h
      · exact ih h

end Arrivals

/-! ### Handing back -/

/-- The importer and the timeline once a packet of an atom was handed back. -/
def handBack (state : AtomImporter × Timeline) (p : TimedPacket) : AtomImporter × Timeline :=
  (state.1.parse state.2 (p.handedFor PacketField.statsdAtom)).2

lemma handBack_tally (added : Counters) (state : AtomImporter × Timeline) (p : TimedPacket) :
    handBack (Prod.map id (Timeline.tally added) state) p =
      Prod.map id (Timeline.tally added) (handBack state p) := by
  have htally := @AtomImporter.parse_tally added state.1 state.2
    (p.handedFor PacketField.statsdAtom)
  exact congrArg Prod.snd htally

lemma foldl_handBack_tally (added : Counters) (queue : List TimedPacket)
    (state : AtomImporter × Timeline) :
    queue.foldl handBack (Prod.map id (Timeline.tally added) state) =
      Prod.map id (Timeline.tally added) (queue.foldl handBack state) := by
  induction queue generalizing state with
  | nil => rfl
  | cons p queue ih => rw [List.foldl_cons, List.foldl_cons, handBack_tally, ih]

/-- **Handing back does not depend on pushing**: packets that were pushed meanwhile are counted, and
that is all. -/
lemma foldl_handBack_tallyPackets (packets : List Bytes) (queue : List TimedPacket)
    (i : AtomImporter) (t : Timeline) :
    queue.foldl handBack (i, t.tallyPackets packets) =
      Prod.map id (fun t => t.tallyPackets packets) (queue.foldl handBack (i, t)) := by
  induction packets generalizing t with
  | nil => rfl
  | cons b packets ih =>
      have hone := foldl_handBack_tally (Trace.packetCounts b) queue (i, t)
      calc queue.foldl handBack (i, t.tallyPackets (b :: packets))
          = Prod.map id (fun t => t.tallyPackets packets)
              (queue.foldl handBack (i, t.tally (Trace.packetCounts b))) := ih _
        _ = Prod.map id (fun t => t.tallyPackets packets)
              (Prod.map id (Timeline.tally (Trace.packetCounts b))
                (queue.foldl handBack (i, t))) := by rw [← hone]; rfl

namespace Session

/-! ### A session and its parts -/

/-- A session with one importer of atoms, made of its parts. -/
def single (i : AtomImporter) (t : Timeline) (sorter : Sorter) (a : Arrivals) :
    Session AtomImporter where
  context := ⟨t, sorter⟩
  importers := #[i]
  owners := (∅ : Std.HashMap UInt32 ℕ).insert PacketField.statsdAtom 0
  latestTimestamp := a.latestTimestamp
  generations := a.generations
  packetsSeen := a.packetsSeen

lemma forAtoms_eq_single (schema : AtomSchema) (trackName : String) :
    forAtoms schema trackName =
      single (.ofSchema schema trackName) .initial .empty .initial := by
  rw [forAtoms, register_ofSchema]
  rfl

variable {i : AtomImporter} {t : Timeline} {sorter : Sorter} {a : Arrivals}

lemma owner?_single (i : AtomImporter) (t : Timeline) (sorter : Sorter) (a : Arrivals)
    (field : UInt32) :
    (single i t sorter a).owner? field =
      if field = PacketField.statsdAtom then some (0, i) else none := by
  have hserves := serves_forAtoms i.schema i.trackName
  rw [forAtoms_eq_single] at hserves
  have hsingle : (single i t sorter a).Serves 0 i := hserves.replaced rfl rfl
  exact hsingle field

/-! ### Pushing -/

/-- Being offered a packet, the importer changes the queue and the counters. -/
lemma offered_single (o : PacketOffer) :
    (single i t sorter a).offered 0 i o =
      single i (AtomImporter.tokenize ⟨t, sorter⟩ o).2.timeline
        (AtomImporter.tokenize ⟨t, sorter⟩ o).2.sorter a := rfl

/-- A packet without a batch is ignored, whatever fields it has. -/
lemma offer_single_of_no_batch {packet : PacketView} (h : packet.statsd = none) (ts : Int64)
    (sequence : SequenceHandle) (fields : List UInt32) :
    (single i t sorter a).offer packet ts sequence fields =
      single i (t.count .packetIgnored) sorter a := by
  induction fields with
  | nil => rfl
  | cons field fields ih =>
      by_cases hfield : field = PacketField.statsdAtom
      · have howner : (single i t sorter a).owner? field = some (0, i) := by
          rw [owner?_single, if_pos hfield]
        have htokenize := AtomImporter.tokenize_of_no_batch ⟨t, sorter⟩
          ⟨packet, ts, sequence, field⟩ h
        rw [offer_of_ignored howner (congrArg Prod.fst htokenize), offered_single, htokenize]
        exact ih
      · have hnone : (single i t sorter a).owner? field = none := by
          rw [owner?_single, if_neg hfield]
        rw [offer_of_no_owner hnone]
        exact ih

/-- A packet with a batch is split, whatever fields are in front of the batch. -/
lemma offer_single_of_batch {packet : PacketView} {b : Bytes} (h : packet.statsd = some b)
    (ts : Int64) (sequence : SequenceHandle) {fields : List UInt32}
    (hmem : PacketField.statsdAtom ∈ fields) :
    (single i t sorter a).offer packet ts sequence fields =
      single i (t.tally (Batch.decode b).counts)
        ((AtomImporter.tokens ⟨packet, ts, sequence, PacketField.statsdAtom⟩).foldl Sorter.push
          sorter) a := by
  induction fields with
  | nil => cases hmem
  | cons field fields ih =>
      by_cases hfield : field = PacketField.statsdAtom
      · subst hfield
        have howner : (single i t sorter a).owner? PacketField.statsdAtom = some (0, i) := by
          rw [owner?_single, if_pos rfl]
        have htokenize := AtomImporter.tokenize_of_batch ⟨t, sorter⟩
          ⟨packet, ts, sequence, PacketField.statsdAtom⟩ rfl h
        rw [offer_of_handled howner (congrArg Prod.fst htokenize), offered_single, htokenize,
          AtomImporter.queueBatch_eq, AtomImporter.tokens, if_pos rfl, h]
      · have hnone : (single i t sorter a).owner? field = none := by
          rw [owner?_single, if_neg hfield]
        rw [offer_of_no_owner hnone]
        exact ih ((List.mem_cons.mp hmem).resolve_left fun heq => hfield heq.symm)

lemma entered_single {b : Bytes} (h : Trace.readable b = true) :
    (single i t sorter a).entered (PacketView.decode b) = single i t sorter (a.next b) := by
  rw [entered, enterTime, Arrivals.next, if_pos h, Trace.nextTime, if_pos h,
    ← Trace.timestamp_decode]
  cases (PacketView.decode b).timestamp <;> rfl

/-- **Pushing a packet** queues its atoms, counts, and remembers that it arrived. The importer stays
as it is. -/
theorem push_single (i : AtomImporter) (t : Timeline) (sorter : Sorter) (a : Arrivals)
    (b : Bytes) :
    (single i t sorter a).push b =
      single i (t.tally (Trace.packetCounts b)) ((a.tokens b).foldl Sorter.push sorter)
        (a.next b) := by
  have hread := Trace.malformed_decode b
  cases hgood : Trace.readable b with
  | false =>
      rw [hgood] at hread
      have hnext : a.next b = { a with packetsSeen := a.packetsSeen + 1 } := by
        simp [Arrivals.next, Trace.nextTime, hgood]
      rw [push_of_malformed hread, Trace.packetCounts, Arrivals.tokens, hgood,
        if_neg Bool.false_ne_true, if_neg Bool.false_ne_true, hnext, ← Timeline.count_eq_tally]
      rfl
  | true =>
      rw [hgood] at hread
      rw [push_of_readable hread, entered_single hgood, enterTime_decode, Trace.packetCounts,
        Arrivals.tokens, hgood, if_pos rfl, if_pos rfl, ← Trace.statsd_decode]
      cases hstatsd : (PacketView.decode b).statsd with
      | none =>
          rw [offer_single_of_no_batch hstatsd, Timeline.count_eq_tally, AtomImporter.tokens,
            if_pos rfl, hstatsd]
          rfl
      | some batch =>
          rw [offer_single_of_batch hstatsd _ _ (Trace.statsdAtom_mem_fieldIds hstatsd)]
          rfl

lemma foldl_push_single (packets : List Bytes) (i : AtomImporter) (t : Timeline)
    (sorter : Sorter) (a : Arrivals) :
    packets.foldl push (single i t sorter a) =
      single i (t.tallyPackets packets) ((a.tokensOf packets).foldl Sorter.push sorter)
        (packets.foldl Arrivals.next a) := by
  induction packets generalizing t sorter a with
  | nil => rfl
  | cons b packets ih =>
      rw [List.foldl_cons, push_single, ih, Arrivals.tokensOf, List.foldl_append]
      rfl

/-! ### The end of the file -/

/-- Handing back a packet of an atom changes the importer and the timeline. -/
lemma parse_single {p : TimedPacket} {payload : Bytes} (h : p.HoldsAtom payload) :
    (single i t sorter a).parse p =
      (none, single (handBack (i, t) p).1 (handBack (i, t) p).2 sorter a) := by
  have hrecipient : (single i t sorter a).recipient? (PacketView.decode p.blob) =
      some ((0, i), PacketField.statsdAtom) := by
    simp only [recipient?, h.fieldIds_eq, List.findSome?_cons, owner?_single]
    rfl
  have hfatal := AtomImporter.parse_fatal h i t PacketField.statsdAtom
  rw [parse_of_recipient hrecipient, AtomImporter.parse_eq]
  exact Prod.ext hfatal rfl

/-- **The end of a file** hands back what waits, one packet after the other. What is remembered of
the packets that arrived stays as it is. -/
theorem drain_single (h : ∀ p ∈ sorter.queue, ∃ payload, p.HoldsAtom payload)
    (i : AtomImporter) (t : Timeline) (a : Arrivals) :
    (single i t sorter a).drain =
      some (none, single (sorter.queue.foldl handBack (i, t)).1
        (sorter.queue.foldl handBack (i, t)).2 .empty a) := by
  obtain ⟨queue, hqueue⟩ : ∃ queue, sorter.queue = queue := ⟨_, rfl⟩
  rw [hqueue] at h ⊢
  induction queue generalizing i t sorter with
  | nil =>
      obtain rfl := Sorter.queue_eq_nil_iff.mp hqueue
      exact drain_of_empty rfl
  | cons p queue ih =>
      obtain ⟨payload, hp⟩ := h p List.mem_cons_self
      obtain ⟨others, hpop, hothers⟩ := Sorter.exists_pop? hqueue
      rw [drain_of_parsed (s := single i t sorter a) hpop (parse_single hp)]
      exact ih _ _ (fun q hq => h q (List.mem_cons_of_mem p hq)) hothers

/-! ### Runs -/

/-- The session has one importer of atoms, and only packets of one atom wait. -/
def IsSingle (s : Session AtomImporter) : Prop :=
  ∃ i t sorter a, s = single i t sorter a ∧
    ∀ p ∈ sorter.queue, ∃ payload, p.HoldsAtom payload

lemma isSingle_forAtoms (schema : AtomSchema) (trackName : String) :
    (forAtoms schema trackName).IsSingle := by
  refine ⟨_, _, _, _, forAtoms_eq_single schema trackName, ?_⟩
  intro p hp
  cases hp

lemma IsSingle.foldl_push {s : Session AtomImporter} (h : s.IsSingle) (packets : List Bytes) :
    (packets.foldl push s).IsSingle := by
  obtain ⟨i, t, sorter, a, rfl, hwait⟩ := h
  refine ⟨_, _, _, _, foldl_push_single packets i t sorter a, ?_⟩
  intro p hp
  rw [(Sorter.queue_foldl_push_perm _ _).mem_iff, List.mem_append] at hp
  exact hp.elim (hwait p) Arrivals.holdsAtom_of_mem_tokensOf

lemma IsSingle.drain {s : Session AtomImporter} (h : s.IsSingle) :
    ∃ after, s.drain = some (none, after) ∧ after.IsSingle := by
  obtain ⟨i, t, sorter, a, rfl, hwait⟩ := h
  refine ⟨_, drain_single hwait i t a, _, _, _, _, rfl, ?_⟩
  intro p hp
  cases hp

/-- No call but the one that adds an importer changes that. -/
theorem IsSingle.call {s : Session AtomImporter} (h : s.IsSingle) {c : Call AtomImporter}
    (hc : c.registered? = none) : ∃ after, s.call c = some (none, after) ∧ after.IsSingle := by
  cases c with
  | register warns i => cases hc
  | push b => exact ⟨_, rfl, h.foldl_push [b]⟩
  | endOfFile => exact h.drain
  | importTrace source =>
      have hpushed := h.foldl_push source.packets.1
      obtain ⟨after, hdrain, hafter⟩ := hpushed.drain
      rw [Session.call, importTrace]
      cases hcause : source.packets.2 with
      | none =>
          refine ⟨after, ?_, hafter⟩
          simp only [hcause, hdrain]
          rfl
      | some cause =>
          refine ⟨_, ?_, hpushed⟩
          simp only [hcause]
          rfl

lemma IsSingle.run {s : Session AtomImporter} (h : s.IsSingle) {calls : List (Call AtomImporter)}
    (hcalls : ∀ c ∈ calls, c.registered? = none) :
    ∃ after, s.run calls = some (none, after) ∧ after.IsSingle := by
  induction calls generalizing s with
  | nil => exact ⟨s, rfl, h⟩
  | cons c calls ih =>
      obtain ⟨mid, hcall, hmid⟩ := h.call (hcalls c List.mem_cons_self)
      obtain ⟨after, hrun, hafter⟩ := ih hmid fun d hd => hcalls d (List.mem_cons_of_mem c hd)
      exact ⟨after, (run_of_call hcall calls).trans hrun, hafter⟩

lemma run_map_push (packets : List Bytes) (calls : List (Call AtomImporter))
    (s : Session AtomImporter) :
    s.run (packets.map Call.push ++ calls) = (packets.foldl push s).run calls := by
  induction packets generalizing s with
  | nil => rfl
  | cons b packets ih => exact ih (s.push b)

lemma run_endOfFile {s after : Session AtomImporter} (h : s.drain = some (none, after))
    (calls : List (Call AtomImporter)) : s.run (.endOfFile :: calls) = after.run calls := by
  rw [Session.run, Session.call, h]

/-! ### Two parts -/

/-- What waits once packets were pushed is in the stable order. -/
lemma queue_tokensOf (a : Arrivals) (packets : List Bytes) :
    ((a.tokensOf packets).foldl Sorter.push .empty).queue =
      sortByTime TimedPacket.ts (a.tokensOf packets) := by
  rw [Sorter.queue_foldl_push Sorter.sorted_empty]
  rfl

lemma holdsAtom_of_mem_queue (a : Arrivals) (packets : List Bytes) :
    ∀ p ∈ ((a.tokensOf packets).foldl Sorter.push .empty).queue,
      ∃ payload, p.HoldsAtom payload := by
  intro p hp
  rw [queue_tokensOf, (sortByTime_perm _ _).mem_iff] at hp
  exact Arrivals.holdsAtom_of_mem_tokensOf hp

/-- The importer and the timeline once packets were pushed and the end of the file was announced. -/
def imported (i : AtomImporter) (t : Timeline) (a : Arrivals) (packets : List Bytes) :
    AtomImporter × Timeline :=
  (sortByTime TimedPacket.ts (a.tokensOf packets)).foldl handBack (i, t.tallyPackets packets)

/-- The packets of a part, and the end of the file. -/
lemma run_part (i : AtomImporter) (t : Timeline) (a : Arrivals) (packets : List Bytes)
    (calls : List (Call AtomImporter)) :
    (single i t .empty a).run (packets.map Call.push ++ Call.endOfFile :: calls) =
      (single (imported i t a packets).1 (imported i t a packets).2 .empty
        (packets.foldl Arrivals.next a)).run calls := by
  have hdrain := drain_single (holdsAtom_of_mem_queue a packets) i (t.tallyPackets packets)
    (packets.foldl Arrivals.next a)
  rw [queue_tokensOf] at hdrain
  rw [run_map_push, foldl_push_single, run_endOfFile hdrain, imported]

/-- Of two parts the packets of the first are handed back first, if none of them is later than one
of the second. -/
lemma sortByTime_tokensOf_append {front back : List Bytes}
    (h : ∀ p ∈ Trace.atomsFrom a.latestTimestamp front,
      ∀ q ∈ Trace.atomsFrom (front.foldl Trace.nextTime a.latestTimestamp) back, p.1 ≤ q.1) :
    sortByTime TimedPacket.ts (a.tokensOf (front ++ back)) =
      sortByTime TimedPacket.ts (a.tokensOf front) ++
        sortByTime TimedPacket.ts ((front.foldl Arrivals.next a).tokensOf back) := by
  rw [← Arrivals.latestTimestamp_foldl_next, ← Arrivals.map_atom_tokensOf,
    ← Arrivals.map_atom_tokensOf] at h
  rw [Arrivals.tokensOf_append, sortByTime_append]
  intro p hp q hq
  exact h p.atom (List.mem_map_of_mem hp) q.atom (List.mem_map_of_mem hq)

/-- Two parts that are imported one after the other are imported as one. -/
lemma imported_append (i : AtomImporter) (t : Timeline) {front back : List Bytes}
    (h : ∀ p ∈ Trace.atomsFrom a.latestTimestamp front,
      ∀ q ∈ Trace.atomsFrom (front.foldl Trace.nextTime a.latestTimestamp) back, p.1 ≤ q.1) :
    imported i t a (front ++ back) =
      imported (imported i t a front).1 (imported i t a front).2 (front.foldl Arrivals.next a)
        back := by
  have hcounted : t.tallyPackets (front ++ back) = (t.tallyPackets front).tallyPackets back :=
    List.foldl_append
  calc imported i t a (front ++ back)
      = (sortByTime TimedPacket.ts ((front.foldl Arrivals.next a).tokensOf back)).foldl handBack
          ((sortByTime TimedPacket.ts (a.tokensOf front)).foldl handBack
            (i, (t.tallyPackets front).tallyPackets back)) := by
        rw [imported, sortByTime_tokensOf_append h, List.foldl_append, hcounted]
    _ = (sortByTime TimedPacket.ts ((front.foldl Arrivals.next a).tokensOf back)).foldl handBack
          (Prod.map id (fun t => t.tallyPackets back) (imported i t a front)) := by
        rw [foldl_handBack_tallyPackets, imported]
    _ = imported (imported i t a front).1 (imported i t a front).2
          (front.foldl Arrivals.next a) back := rfl

/-- **A trace may be imported in two parts.** Take a session with one importer of atoms in which
nothing waits, however it was fed before. If no atom of the packets in `back` is earlier than one of
those in `front`, then pushing `front` and `back` with the end of a file announced between them and
at the end leads to the same session, and so to the same tables, as pushing them all and announcing
it at the end; no check fails. -/
theorem run_in_two_parts (schema : AtomSchema) (trackName : String)
    {calls : List (Call AtomImporter)} (hcalls : ∀ c ∈ calls, c.registered? = none)
    {s : Session AtomImporter} (hs : (forAtoms schema trackName).run calls = some (none, s))
    (hempty : s.context.sorter = .empty) {front back : List Bytes}
    (horder : ∀ p ∈ Trace.atomsFrom s.latestTimestamp front,
      ∀ q ∈ Trace.atomsFrom (front.foldl Trace.nextTime s.latestTimestamp) back, p.1 ≤ q.1) :
    ∃ after,
      s.run (front.map Call.push ++ [Call.endOfFile] ++ back.map Call.push ++ [Call.endOfFile]) =
          some (none, after) ∧
        s.run (front.map Call.push ++ back.map Call.push ++ [Call.endOfFile]) =
          some (none, after) := by
  obtain ⟨reached, hrun, hsingle⟩ := (isSingle_forAtoms schema trackName).run hcalls
  obtain rfl : reached = s := congrArg Prod.snd (Option.some.inj (hrun.symm.trans hs))
  obtain ⟨i, t, sorter, a, rfl, -⟩ := hsingle
  obtain rfl : sorter = .empty := hempty
  refine ⟨single (imported i t a (front ++ back)).1 (imported i t a (front ++ back)).2 .empty
    ((front ++ back).foldl Arrivals.next a), ?_, ?_⟩
  · rw [List.append_assoc, List.append_assoc, List.singleton_append, run_part, run_part,
      imported_append i t horder, List.foldl_append]
    rfl
  · rw [← List.map_append, run_part]
    rfl

/-- Two atoms with the same timestamp, on either side of the end of a file. -/
theorem run_in_two_parts_of_equal_times :
    Trace.atomsFrom 0 [singletonPacket 5 [8, 1], singletonPacket 5 [16, 1]] =
        [(5, [8, 1]), (5, [16, 1])] ∧
      ∃ after,
        (forAtoms .missing defaultTrackName).run
            ([singletonPacket 5 [8, 1]].map Call.push ++ [Call.endOfFile] ++
              [singletonPacket 5 [16, 1]].map Call.push ++ [Call.endOfFile]) =
            some (none, after) ∧
          (forAtoms .missing defaultTrackName).run
            ([singletonPacket 5 [8, 1]].map Call.push ++
              [singletonPacket 5 [16, 1]].map Call.push ++ [Call.endOfFile]) =
            some (none, after) := by
  have hfirst := Trace.packetAtoms_singletonPacket
    (fitsBatch_of_length_lt (show [8, 1].length < 128 by decide))
  have hsecond := Trace.packetAtoms_singletonPacket
    (fitsBatch_of_length_lt (show [16, 1].length < 128 by decide))
  have hcalls : ∀ c ∈ ([] : List (Call AtomImporter)), c.registered? = none := by
    intro c hc
    cases hc
  have hempty := congrArg Context.sorter (context_forAtoms .missing defaultTrackName)
  refine ⟨?_, run_in_two_parts .missing defaultTrackName hcalls rfl hempty ?_⟩
  · simp only [Trace.atomsFrom, hfirst, hsecond, List.append_nil, List.singleton_append]
  · intro p hp q hq
    simp only [latestTimestamp_forAtoms, Trace.atomsFrom, hfirst, hsecond, List.append_nil,
      List.mem_singleton] at hp hq
    rw [hp, hq]
    exact Int64.le_refl 5

end Session

end AtomTimeline
