import AtomTimeline.Proofs.Session.AtomImport

/-!
Runs of a session with one importer of atoms, in which packets are pushed and the end of a file is
announced in any order.

* `Session.Feed` are these calls.
* `Session.Books` says which atoms are recorded and which were refused.
* `Session.Balanced` is the invariant of a run: the atoms that wait, those recorded and those
  refused are together the atoms of the packets pushed. `Session.Balanced.parse` is the step:
  handing back one packet enters its atom in one of the two lists. Every call keeps the balance.
* `Session.run_balanced`: so no atom is lost or comes twice, however pushes and ends of files are
  mixed.
-/

namespace AtomTimeline

namespace Session

/-! ### Calls -/

/-- What a session is fed: a packet, or the end of a file. -/
inductive Feed where
  | packet (b : Bytes)
  | endOfFile
  deriving DecidableEq, Repr

namespace Feed

/-- The call that feeds it. -/
def call : Feed → Call AtomImporter
  | packet b => .push b
  | endOfFile => .endOfFile

/-- The packets fed, in order. -/
def packets : List Feed → List Bytes
  | [] => []
  | packet b :: feeds => b :: packets feeds
  | endOfFile :: feeds => packets feeds

end Feed

variable {s after : Session AtomImporter} {schema : AtomSchema} {trackName : String}
  {pushed : List Bytes} {waiting recorded refused : List StampedAtom} {p : TimedPacket}
  {payload : Bytes}

/-- How many slices were refused. -/
def refusals (s : Session AtomImporter) : Int64 := s.storage.counters.get .sliceOutOfOrder

lemma refusals_count {stat : Stat} (h : .sliceOutOfOrder ≠ stat) (s : Session AtomImporter) :
    (s.count stat).refusals = s.refusals := by
  simp [refusals, count, storage, Timeline.count, Timeline.mapStorage, Storage.count,
    Storage.countBy, h]

/-- Pushing a packet refuses nothing. -/
lemma refusals_push (s : Session AtomImporter) (b : Bytes) : (s.push b).refusals = s.refusals := by
  cases hread : (PacketView.decode b).malformed with
  | true =>
      rw [push_of_malformed hread, refusals_count (by decide)]
      rfl
  | false =>
      rw [push_of_readable hread]
      refine offer_induction (P := fun after => after.refusals = s.refusals) ?_ ?_ _ _ ?_
      · intro after h
        rw [refusals_count (by decide), h]
      · intro after field place i _ h
        rw [← h]
        exact AtomImporter.get_tokenize after.context _ (by decide) (by decide)
      · rw [refusals, storage, context_entered, refusals, storage]

/-! ### Handing packets back -/

/-- These atoms are recorded, in the order of their timestamps, and these others were refused. -/
structure Books (s : Session AtomImporter) (schema : AtomSchema) (trackName : String)
    (recorded refused : List StampedAtom) : Prop where
  importer : ∃ i, s.Serves 0 i ∧ i.Recorded s.context.timeline schema trackName recorded
  inTime : InTime Prod.fst recorded
  refusals_eq : s.refusals = Int64.ofNat refused.length

/-- An atom starts before some slice in the table. -/
def Late (s : Session AtomImporter) (ts : Int64) : Prop := ∃ row ∈ s.storage.slices, ts < row.ts

lemma Books.slices (h : s.Books schema trackName recorded refused) :
    s.storage.ShowsSlices schema recorded := by
  obtain ⟨i, -, hrecorded⟩ := h.importer
  exact hrecorded.slices

lemma Books.refuses_iff_late (h : s.Books schema trackName recorded refused) (ts : Int64) :
    refuses recorded ts = true ↔ s.Late ts := refuses_iff_slices h.inTime h.slices ts

/-! ### The balance -/

/-- The atoms that wait, those recorded and those refused are the atoms of the packets pushed. -/
structure Balanced (s : Session AtomImporter) (schema : AtomSchema) (trackName : String)
    (pushed : List Bytes) (recorded refused : List StampedAtom) : Prop
    extends Books s schema trackName recorded refused where
  sorted : s.context.sorter.Sorted
  holds : ∀ p ∈ s.context.sorter.queue, ∃ payload, p.HoldsAtom payload
  latest : s.latestTimestamp = Trace.latestTime pushed
  perm : (s.context.sorter.queue.map TimedPacket.atom ++ (recorded ++ refused)).Perm
    (Trace.atoms pushed)

lemma Balanced.importing (h : s.Balanced schema trackName pushed recorded refused) :
    s.Importing 0 schema trackName (s.context.sorter.queue.map TimedPacket.atom) recorded :=
  ⟨h.importer, h.sorted, h.holds, rfl⟩

lemma balanced_forAtoms (schema : AtomSchema) (trackName : String) :
    (forAtoms schema trackName).Balanced schema trackName [] [] [] :=
  have h := importing_forAtoms schema trackName
  { importer := h.importer
    inTime := .nil
    refusals_eq := by
      rw [refusals, storage, context_forAtoms]
      rfl
    sorted := h.sorted
    holds := h.holds
    latest := latestTimestamp_forAtoms schema trackName
    perm := by
      rw [h.waiting_eq]
      exact .refl _ }

/-- **Pushing a packet** keeps the balance: its atoms wait now. -/
theorem Balanced.push (h : s.Balanced schema trackName pushed recorded refused) (b : Bytes) :
    (s.push b).Balanced schema trackName (pushed ++ [b]) recorded refused := by
  have hnext := h.importing.push b
  refine ⟨⟨hnext.importer, h.inTime, ?_⟩, hnext.sorted, hnext.holds, ?_, ?_⟩
  · rw [refusals_push, h.refusals_eq]
  · rw [latestTimestamp_push, h.latest, Trace.latestTime_append_singleton]
  · rw [hnext.waiting_eq, Trace.atoms_append_singleton, h.latest]
    have hsorted := (sortByTime_perm Prod.fst (s.context.sorter.queue.map TimedPacket.atom ++
      Trace.packetAtoms (Trace.latestTime pushed) b)).append_right (recorded ++ refused)
    refine hsorted.trans (List.Perm.trans ?_ (h.perm.append_right _))
    rw [List.append_assoc, List.append_assoc]
    exact List.perm_append_comm.append_left _

/-- **Handing back the packet that comes first** enters its atom with those refused if it is late,
and otherwise with those recorded. -/
theorem Balanced.parse (h : s.Balanced schema trackName pushed recorded refused) {sorter : Sorter}
    (hpop : s.context.sorter.pop? = some (p, sorter)) :
    ∃ mid, (s.withSorter sorter).parse p = (none, mid) ∧ mid.context.sorter = sorter ∧
      ((s.Late p.ts ∧ mid.storage.slices = s.storage.slices ∧
          mid.Balanced schema trackName pushed recorded (refused ++ [p.atom])) ∨
        (¬ s.Late p.ts ∧ mid.Balanced schema trackName pushed (recorded ++ [p.atom]) refused)) := by
  obtain ⟨i, hserves, hrecorded⟩ := h.importer
  have hqueue := Sorter.queue_of_pop? hpop
  obtain ⟨payload, hp⟩ := h.holds p (hqueue ▸ List.mem_cons_self)
  have hserved : (s.withSorter sorter).Serves 0 i := hserves
  obtain ⟨next, mid, hparse, hnext, hshows, hcounters, hslices, hsorter, -⟩ :=
    hserved.parse hrecorded hp
  have hsorter : mid.context.sorter = sorter := hsorter
  have hrefusals : mid.refusals = s.refusals +
      schema.growth payload (refuses recorded p.ts) .sliceOutOfOrder := hcounters _
  have htime := inTime_recordNext h.inTime p.atom
  have hsorted := h.sorted
  rw [Sorter.Sorted, hqueue] at hsorted
  have hperm := h.perm
  rw [hqueue, List.map_cons, List.cons_append] at hperm
  have hlatest : mid.latestTimestamp = s.latestTimestamp := by
    have hkeep := parse_induction
      (P := fun after => after.latestTimestamp = (s.withSorter sorter).latestTimestamp)
      (fun _ _ _ _ _ _ h => h) (s.withSorter sorter) rfl p
    rwa [hparse] at hkeep
  -- what does not depend on whether the atom is recorded
  have hrest : ∀ {recorded' refused'}, mid.Books schema trackName recorded' refused' →
      (p.atom :: (recorded ++ refused)).Perm (recorded' ++ refused') →
      mid.Balanced schema trackName pushed recorded' refused' := by
    intro recorded' refused' hbooks hentered
    refine ⟨hbooks, ?_, ?_, hlatest.trans h.latest, ?_⟩
    · rw [hsorter]
      exact (List.pairwise_cons.mp hsorted).2
    · rw [hsorter]
      exact fun q hq => h.holds q (hqueue ▸ List.mem_cons_of_mem p hq)
    · rw [hsorter]
      exact (hentered.append_left _).symm.trans (List.perm_middle.trans hperm)
  rw [recordNext] at hshows htime
  refine ⟨mid, hparse, hsorter, ?_⟩
  rw [← h.refuses_iff_late]
  cases hr : refuses recorded p.ts with
  | true =>
      rw [if_pos (show refuses recorded p.atom.1 = true from hr)] at hshows
      refine .inl ⟨rfl, hslices hr, hrest ⟨⟨next, hnext, hshows⟩, h.inTime, ?_⟩ ?_⟩
      · rw [hrefusals, hr, h.refusals_eq, List.length_append, List.length_singleton,
          Int64.ofNat_add]
        rfl
      · rw [← List.append_assoc]
        exact (List.perm_append_singleton _ _).symm
  | false =>
      rw [if_neg (show ¬ refuses recorded p.atom.1 = true by simp [TimedPacket.atom, hr])]
        at hshows htime
      refine .inr ⟨Bool.false_ne_true, hrest ⟨⟨next, hnext, hshows⟩, htime, ?_⟩ ?_⟩
      · rw [hrefusals, hr, h.refusals_eq]
        exact Int64.add_zero _
      · rw [List.append_assoc]
        exact List.perm_middle.symm

/-- The balance, however many atoms were recorded and refused by now. -/
def InBalance (s : Session AtomImporter) (schema : AtomSchema) (trackName : String)
    (pushed : List Bytes) : Prop :=
  ∃ recorded refused, s.Balanced schema trackName pushed recorded refused

lemma InBalance.parse (h : s.InBalance schema trackName pushed) {sorter : Sorter}
    (hpop : s.context.sorter.pop? = some (p, sorter)) :
    ∃ mid, (s.withSorter sorter).parse p = (none, mid) ∧ mid.context.sorter = sorter ∧
      mid.InBalance schema trackName pushed := by
  obtain ⟨recorded, refused, h⟩ := h
  obtain ⟨mid, hparse, hsorter, ⟨-, -, hmid⟩ | ⟨-, hmid⟩⟩ := h.parse hpop
  · exact ⟨mid, hparse, hsorter, _, _, hmid⟩
  · exact ⟨mid, hparse, hsorter, _, _, hmid⟩

/-- **The end of a file** keeps the balance and leaves nothing waiting. -/
theorem Balanced.drain (h : s.Balanced schema trackName pushed recorded refused) :
    ∃ after recorded' refused', s.drain = some (none, after) ∧ after.context.sorter = .empty ∧
      after.Balanced schema trackName pushed recorded' refused' := by
  obtain ⟨after, hdrain, hempty, recorded', refused', hafter⟩ :=
    exists_drain_of_parse (fun _ _ _ hs hpop => InBalance.parse hs hpop) ⟨recorded, refused, h⟩
  exact ⟨after, recorded', refused', hdrain, hempty, hafter⟩

/-- Every run keeps the balance and fails no check. -/
theorem Balanced.run (h : s.Balanced schema trackName pushed recorded refused)
    (feeds : List Feed) :
    ∃ after recorded' refused', s.run (feeds.map Feed.call) = some (none, after) ∧
      after.Balanced schema trackName (pushed ++ Feed.packets feeds) recorded' refused' := by
  induction feeds generalizing s pushed recorded refused with
  | nil => exact ⟨s, recorded, refused, rfl, by rwa [Feed.packets, List.append_nil]⟩
  | cons feed feeds ih =>
      cases feed with
      | packet b =>
          obtain ⟨after, recorded', refused', hrun, hafter⟩ := ih (h.push b)
          refine ⟨after, recorded', refused', hrun, ?_⟩
          rwa [Feed.packets, ← List.singleton_append, ← List.append_assoc]
      | endOfFile =>
          obtain ⟨mid, recordedMid, refusedMid, hdrain, -, hmid⟩ := h.drain
          obtain ⟨after, recorded', refused', hrun, hafter⟩ := ih hmid
          have hcall : s.call .endOfFile = some (none, mid) := hdrain
          exact ⟨after, recorded', refused', (run_of_call hcall _).trans hrun, hafter⟩

/-! ### What a balanced session shows -/

/-- The slices are in the order of their timestamps. -/
lemma Books.ascending (h : s.Books schema trackName recorded refused) :
    s.storage.slices.toList.Pairwise fun row next => row.ts ≤ next.ts := by
  have htime := List.pairwise_map.mpr h.inTime
  rw [← h.slices.map_ts] at htime
  exact List.pairwise_map.mp htime

/-- The packets of the queue are handed back one after the other; each is refused if and only if it
is late then. -/
lemma Balanced.parse_each (h : s.Balanced schema trackName pushed recorded refused)
    {front back : List TimedPacket} (hqueue : s.context.sorter.queue = front ++ p :: back) :
    ∃ mid sorter last, s.HandsBack front mid ∧ mid.context.sorter.pop? = some (p, sorter) ∧
      (mid.withSorter sorter).parse p = (none, last) ∧
      ((mid.Late p.ts ∧ last.storage.slices = mid.storage.slices ∧
          last.refusals = mid.refusals + 1) ∨
        (¬ mid.Late p.ts ∧ last.storage.slices.toList.map SliceRow.ts =
          mid.storage.slices.toList.map SliceRow.ts ++ [p.ts] ∧
          last.refusals = mid.refusals)) := by
  obtain ⟨mid, hback, hrest, recordedMid, refusedMid, hmid⟩ :=
    exists_handsBack (fun _ _ _ hs hpop => InBalance.parse hs hpop) ⟨recorded, refused, h⟩ hqueue
  obtain ⟨sorter, hpop, -⟩ := Sorter.exists_pop? hrest
  obtain ⟨last, hparse, -, hlast⟩ := hmid.parse hpop
  refine ⟨mid, sorter, last, hback, hpop, hparse, ?_⟩
  rcases hlast with ⟨hlate, hslices, hbooks⟩ | ⟨hlate, hbooks⟩
  · refine .inl ⟨hlate, hslices, ?_⟩
    rw [hbooks.refusals_eq, hmid.refusals_eq, List.length_append, List.length_singleton,
      Int64.ofNat_add]
    rfl
  · refine .inr ⟨hlate, ?_, ?_⟩
    · rw [hbooks.slices.map_ts, hmid.slices.map_ts, List.map_append]
      rfl
    · rw [hbooks.refusals_eq, hmid.refusals_eq]

/-- **No atom is lost or comes twice.** Whatever bytes are pushed and however often the end of a
file is announced in between, no check fails and after each call the atoms of the packets pushed are
those that wait, those recorded as slices and those refused, each once; in numbers, the queue, the
slices and the count of refused slices add up to the atoms, the count being a word of 64 bits. The
slices are in the order of their timestamps. At the end of a file each packet of the queue is
refused if and only if it starts before some slice that is in the table when its turn comes, and
nothing is left in the queue. -/
theorem run_balanced (schema : AtomSchema) (trackName : String) (feeds : List Feed) :
    ∃ after, (forAtoms schema trackName).run (feeds.map Feed.call) = some (none, after) ∧
      (∃ recorded refused, after.storage.ShowsSlices schema recorded ∧
        (after.context.sorter.queue.map TimedPacket.atom ++ (recorded ++ refused)).Perm
          (Trace.atoms (Feed.packets feeds)) ∧
        (Trace.atoms (Feed.packets feeds)).length =
          after.context.sorter.size + after.storage.slices.size + refused.length ∧
        after.refusals = Int64.ofNat refused.length) ∧
      ((Trace.atoms (Feed.packets feeds)).length < 2 ^ 63 →
        ((Trace.atoms (Feed.packets feeds)).length : Int) =
          after.context.sorter.size + after.storage.slices.size + after.refusals.toInt) ∧
      after.storage.slices.toList.Pairwise (fun row next => row.ts ≤ next.ts) ∧
      (∀ front p back, after.context.sorter.queue = front ++ p :: back →
        ∃ mid sorter last, after.HandsBack front mid ∧
          mid.context.sorter.pop? = some (p, sorter) ∧
          (mid.withSorter sorter).parse p = (none, last) ∧
          ((mid.Late p.ts ∧ last.storage.slices = mid.storage.slices ∧
              last.refusals = mid.refusals + 1) ∨
            (¬ mid.Late p.ts ∧ last.storage.slices.toList.map SliceRow.ts =
              mid.storage.slices.toList.map SliceRow.ts ++ [p.ts] ∧
              last.refusals = mid.refusals))) ∧
      ∃ drained, after.drain = some (none, drained) ∧ drained.context.sorter = .empty := by
  obtain ⟨after, recorded, refused, hrun, h⟩ :=
    (balanced_forAtoms schema trackName).run feeds
  rw [List.nil_append] at h
  obtain ⟨drained, -, -, hdrain, hempty, -⟩ := h.drain
  have hcount : (Trace.atoms (Feed.packets feeds)).length =
      after.context.sorter.size + after.storage.slices.size + refused.length := by
    rw [← h.perm.length_eq, List.length_append, List.length_append, List.length_map,
      Sorter.length_queue, h.slices.size, Nat.add_assoc]
  refine ⟨after, hrun, ⟨recorded, refused, h.slices, h.perm, hcount, h.refusals_eq⟩,
    fun hfew => ?_, h.ascending, fun front p back hqueue => h.parse_each hqueue, drained, hdrain,
    hempty⟩
  rw [h.refusals_eq, Int64.toInt_ofNat_of_lt (by omega), hcount]
  push_cast
  ring

end Session

end AtomTimeline
