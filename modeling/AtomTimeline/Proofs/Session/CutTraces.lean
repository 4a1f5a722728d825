import AtomTimeline.Proofs.Session.TwoPasses
import AtomTimeline.Proofs.Trace.Cuts
import AtomTimeline.Proofs.Trace.Packets

/-!
Importing a trace that is cut off.

* `Session.importTrace_of_error`: after an error the packets in front of it were pushed, and that
  is all that was done.
* `Session.importTrace_take`: of a trace that is cut off, the packets in front of the cut are
  pushed. The import is complete just if no field is cut; otherwise nothing is recorded, and it can
  still be completed.
-/

namespace AtomTimeline

lemma Arrivals.packetsSeen_foldl_next (a : Arrivals) (packets : List Bytes) :
    (packets.foldl next a).packetsSeen = a.packetsSeen + packets.length := by
  induction packets generalizing a with
  | nil => rfl
  | cons b packets ih =>
      rw [List.foldl_cons, ih, List.length_cons]
      exact Nat.add_right_comm a.packetsSeen 1 packets.length

/-- Packets that are pushed change the counters of a timeline alone. -/
lemma Timeline.tallyPackets_eq (t : Timeline) (packets : List Bytes) :
    ∃ counters, t.tallyPackets packets =
      { t with storage := { t.storage with counters } } := by
  induction packets generalizing t with
  | nil => exact ⟨t.storage.counters, rfl⟩
  | cons b packets ih =>
      obtain ⟨counters, hcounters⟩ := ih (t.tally (Trace.packetCounts b))
      exact ⟨counters, hcounters⟩

namespace Session

lemma importTrace_of_clean {s drained : Session AtomImporter} {source : Source}
    {packets : List Bytes} (hpackets : source.packets = (packets, none))
    (hdrain : (packets.foldl push s).drain = some (none, drained)) :
    s.importTrace source = some (.complete, drained) := by
  simp only [importTrace, hpackets, hdrain]
  rfl

/-- After an error what was read before it was pushed, and nothing else was done. -/
lemma importTrace_of_error {s : Session AtomImporter} {source : Source} {packets : List Bytes}
    {cause : ReadError} (hpackets : source.packets = (packets, some cause)) :
    s.importTrace source =
      some (.failed ⟨(packets.foldl push s).packetsSeen + 1, cause⟩, packets.foldl push s) := by
  simp only [importTrace, hpackets]

/-- Pushing packets to a session that is new counts, and records nothing. -/
lemma foldl_push_forAtoms (schema : AtomSchema) (trackName : String) (packets : List Bytes) :
    (packets.foldl push (forAtoms schema trackName)).packetsSeen = packets.length ∧
      ∃ counters, (packets.foldl push (forAtoms schema trackName)).context.timeline =
        { Timeline.initial with storage := { Storage.initial with counters } } := by
  rw [forAtoms_eq_single, foldl_push_single]
  refine ⟨?_, Timeline.tallyPackets_eq .initial packets⟩
  exact (Arrivals.packetsSeen_foldl_next .initial packets).trans (Nat.zero_add _)

/-- **Importing a trace that is cut off.** Take a trace that is read without error, and its first
`n` bytes. Importing these into a new session pushes the packets of the trace up to some packet. It
is complete just if the cut is between two fields or at an end of the trace; then it leads to what
pushing these packets and announcing the end of the file leads to. Otherwise the error names the
packet behind the last one pushed, of the timeline only counters have changed, and announcing the
end of the file now leads there, too. -/
theorem importTrace_take (schema : AtomSchema) (trackName : String) {t : Bytes}
    {packets : List Bytes} {ended : PacketStream}
    (ht : Yields PacketStream.next (.ofSource (.ofBytes t)) (packets.map .ok) ended) (n : ℕ) :
    ∃ outcome after pushed drained,
      (forAtoms schema trackName).importTrace (.ofBytes (t.take n)) = some (outcome, after) ∧
      (Source.ofBytes (t.take n)).packets.1 = pushed ∧ pushed <+: packets ∧
      (forAtoms schema trackName).run (pushed.map Call.push ++ [Call.endOfFile]) =
        some (none, drained) ∧
      (outcome = .complete ↔ Trace.Boundary t n) ∧
      (outcome = .complete → after = drained) ∧
      (outcome ≠ .complete → ∃ e counters, outcome = .failed e ∧
        e.chain.head? = some ("Failed to read trace packet " ++ toString (pushed.length + 1)) ∧
        after = pushed.foldl push (forAtoms schema trackName) ∧
        after.context.timeline =
          { Timeline.initial with storage := { Storage.initial with counters } } ∧
        after.call .endOfFile = some (none, drained)) := by
  have hpackets := PacketStream.packets_of_yields ht
  obtain ⟨fs, hfs⟩ := Source.exists_spelledTrace_of_packets (congrArg Prod.snd hpackets)
  obtain ⟨front, back, rfl, hpushed, hboundary⟩ := Source.packets_take hfs n
  have hprefix : front.filterMap TraceField.packet? <+: packets := by
    rw [Source.packets_of_spelledTrace hfs, List.filterMap_append] at hpackets
    exact ⟨_, congrArg Prod.fst hpackets⟩
  generalize front.filterMap TraceField.packet? = pushed at hpushed hprefix
  obtain ⟨drained, hdrain, -⟩ :=
    ((isSingle_forAtoms schema trackName).foldl_push pushed).drain
  have hrun : (forAtoms schema trackName).run (pushed.map Call.push ++ [Call.endOfFile]) =
      some (none, drained) := by
    rw [run_map_push, run_endOfFile hdrain]
    rfl
  cases hcause : (Source.ofBytes (t.take n)).packets.2 with
  | none =>
      have himport := importTrace_of_clean (Prod.ext hpushed hcause) hdrain
      refine ⟨_, _, pushed, drained, himport, hpushed, hprefix, hrun, ?_, fun _ => rfl,
        fun hne => absurd rfl hne⟩
      exact iff_of_true rfl (hboundary.mp hcause)
  | some cause =>
      obtain ⟨hseen, counters, htimeline⟩ := foldl_push_forAtoms schema trackName pushed
      have himport := importTrace_of_error (s := forAtoms schema trackName)
        (Prod.ext hpushed hcause)
      rw [hseen] at himport
      have hfailed : ∀ e, TraceOutcome.failed e ≠ .complete := fun e h => by cases h
      refine ⟨_, _, pushed, drained, himport, hpushed, hprefix, hrun, ?_,
        fun h => absurd h (hfailed _), fun _ =>
          ⟨_, counters, rfl, rfl, rfl, htimeline, hdrain⟩⟩
      refine iff_of_false (hfailed _) fun h => ?_
      rw [hboundary.mpr h] at hcause
      cases hcause

/-- A trace of two packets that is cut off behind the length of the second. -/
theorem importTrace_take_of_two_packets :
    (∃ ended, Yields PacketStream.next (.ofSource (.ofBytes [10, 2, 8, 1, 10, 2, 16, 1]))
      ([[8, 1], [16, 1]].map .ok) ended) ∧
    ∃ e after drained,
      (forAtoms .missing defaultTrackName).importTrace (.ofBytes [10, 2, 8, 1, 10, 2]) =
        some (.failed e, after) ∧
      e.chain.head? = some "Failed to read trace packet 2" ∧
      after = (forAtoms .missing defaultTrackName).push [8, 1] ∧
      (forAtoms .missing defaultTrackName).run [Call.push [8, 1], Call.endOfFile] =
        some (none, drained) ∧
      after.call .endOfFile = some (none, drained) := by
  have hwhole : (Source.ofBytes [10, 2, 8, 1, 10, 2, 16, 1]).packets =
      ([[8, 1], [16, 1]], none) := by decide +kernel
  have hcut : (Source.ofBytes [10, 2, 8, 1, 10, 2]).packets =
      ([[8, 1]], some (.truncatedPacket 2 0)) := by decide +kernel
  obtain ⟨ended, hyields⟩ := PacketStream.yields_packets (.ofBytes [10, 2, 8, 1, 10, 2, 16, 1])
  rw [PacketStream.handedOut, hwhole, Option.toList_none, List.map_nil, List.append_nil] at hyields
  refine ⟨⟨ended, hyields⟩, ?_⟩
  obtain ⟨outcome, after, pushed, drained, himport, hpushed, -, hrun, -, -, herror⟩ :=
    importTrace_take .missing defaultTrackName hyields 6
  have hfailed := importTrace_of_error (s := forAtoms .missing defaultTrackName) hcut
  obtain rfl : [[8, 1]] = pushed := (congrArg Prod.fst hcut).symm.trans hpushed
  have hfailure : outcome ≠ .complete := by
    rintro rfl
    cases hfailed.symm.trans himport
  obtain ⟨e, counters, houtcome, hname, hafter, -, hcall⟩ := herror hfailure
  rw [houtcome] at himport
  exact ⟨e, after, drained, himport, hname, hafter, hrun, hcall⟩

end Session

end AtomTimeline
