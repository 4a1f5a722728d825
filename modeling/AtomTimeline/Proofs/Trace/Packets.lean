import AtomTimeline.Proofs.Packet.Singleton
import AtomTimeline.Proofs.Trace.Fields
import AtomTimeline.Proofs.Wire.Iteration

/-!
A trace read in two ways: as a message, field by field, and as a stream of packets.

* `Field.inTrace` is a field of a message as one of a trace.
* `Source.packets_of_spelled`: in front of other bytes, fields add their packets to a stream and
  nothing else. `Source.exists_error_of_malformed`: where a reader of fields meets a malformed one,
  a stream breaks off, unless it is the id alone that is wrong, at which a stream does not look.
* `PacketStream.yields_packets`: asked again and again, a stream hands out the packets and then the
  error, if there is one. `PacketStream.packets_of_yields`: where it hands out no error, there is
  none.
* `PacketStream.agrees_with_reader`: so the two ways of reading agree on every byte string.
-/

namespace AtomTimeline

/-- The packets among the fields of a trace: what is in the length-delimited ones with id 1. -/
def tracePackets (fs : List Field) : List Bytes := fs.filterMap (Field.bytes? 1)

/-! ### Fields of a message as fields of a trace -/

namespace Field

/-- The bytes begin with a tag whose id is zero or takes more than 32 bits. -/
def IdUnusable (b : Bytes) : Prop :=
  ∃ tag rest, Varint.read b = .ok (tag, rest) ∧ (tag.toNat / 8 = 0 ∨ 2 ^ 32 - 1 < tag.toNat / 8)

/-- A field of a message, in a trace. -/
def inTrace (f : Field) : TraceField := ⟨f.id.toNat, f.value⟩

lemma SpelledBy.inTrace {f : Field} {part : Bytes} (h : f.SpelledBy part) :
    f.inTrace.SpelledBy part := by
  obtain ⟨hp, htag, -, hbody⟩ := h
  exact .intro hp htag hbody

lemma packet?_inTrace (f : Field) : f.inTrace.packet? = f.bytes? 1 := by
  obtain ⟨id, value⟩ := f
  have hid : id.toNat = tracePacketField ↔ id = 1 := UInt32.toNat_inj (b := 1)
  cases value <;> simp only [inTrace, TraceField.packet?, bytes?, hid]

/-- A field of a trace is one of a message, unless its id is unusable. -/
lemma exists_read_of_inTrace {g : TraceField} {part rest : Bytes} (h : g.SpelledBy part)
    (hid : ¬ IdUnusable (part ++ rest)) : ∃ f, read (part ++ rest) = .ok (f, rest) := by
  cases h with
  | @intro tag p body hp htag hbody =>
      have hcode := g.value.wireType.code_lt
      have husable : 0 < g.number ∧ g.number < UInt32.size := by
        by_contra hnot
        have hread := hp.read_append (body ++ rest)
        rw [← List.append_assoc] at hread
        refine hid ⟨tag, body ++ rest, hread, ?_⟩
        rw [show UInt32.size = 2 ^ 32 from rfl] at hnot
        omega
      have hnumber : (UInt32.ofNat g.number).toNat = g.number := UInt32.toNat_ofNat_of_lt husable.2
      have hne : UInt32.ofNat g.number ≠ 0 := by
        intro h0
        rw [h0] at hnumber
        exact absurd hnumber.symm husable.1.ne'
      have hspelled : SpelledBy ⟨UInt32.ofNat g.number, g.value⟩ (p ++ body) :=
        .intro hp (by rw [hnumber, htag]) hne hbody
      exact ⟨_, hspelled.read_append rest⟩

end Field

namespace Source

/-- **Where a reader of fields meets a malformed one**, a stream breaks off, unless it is the id
alone that is wrong. -/
lemma exists_error_of_malformed {b left : Bytes} (hne : b ≠ []) (h : Field.read b = .error left)
    (hid : ¬ Field.IdUnusable b) : ∃ e, (ofBytes b).nextPacket = .error e := by
  by_contra hnot
  obtain ⟨g, part, rest, rfl, hpart⟩ := exists_field_of_nextPacket hne fun e he => hnot ⟨e, he⟩
  obtain ⟨f, hread⟩ := Field.exists_read_of_inTrace hpart hid
  rw [h] at hread
  cases hread

/-- **Fields in front** of other bytes add their packets to a trace and nothing else. -/
theorem packets_of_spelled {fs : List Field} {front : Bytes} (h : SpelledFields fs front)
    (stop : Bytes) :
    (ofBytes (front ++ stop)).packets =
      (tracePackets fs ++ (ofBytes stop).packets.1, (ofBytes stop).packets.2) := by
  obtain ⟨parts, rfl, hparts⟩ := h
  have hfields : SpelledTrace (fs.map Field.inTrace) parts.flatten :=
    ⟨parts, rfl, List.forall₂_map_left_iff.mpr (hparts.imp fun _ _ hpart => hpart.inTrace)⟩
  have hpackets : (fs.map Field.inTrace).filterMap TraceField.packet? = tracePackets fs := by
    rw [List.filterMap_map, tracePackets]
    exact congrArg (List.filterMap · fs) (funext Field.packet?_inTrace)
  rw [packets_of_fields hfields, hpackets]

/-! ### The end of a source -/

section

variable {s rest : Source}

lemma fault_of_readVarint {v : UInt64} (h : s.readVarint = .ok (v, rest)) :
    rest.fault = s.fault := by
  rw [readVarint] at h
  split at h <;> cases h
  rfl

lemma fault_of_readExactly {n : ℕ} {short : ℕ → ReadError} {front : Bytes}
    (h : s.readExactly n short = .ok (front, rest)) : rest.fault = s.fault := by
  rw [readExactly] at h
  split at h <;> cases h
  rfl

lemma fault_of_skip {code : ℕ} (h : s.skip code = .ok rest) : rest.fault = s.fault := by
  unfold skip at h
  split at h
  · split at h <;> cases h
    next hv => exact fault_of_readVarint hv
  · split at h <;> cases h
    next hr => exact fault_of_readExactly hr
  · split at h
    · cases h
    · next hv =>
      split at h <;> cases h
      next hr => exact (fault_of_readExactly hr).trans (fault_of_readVarint hv)
  · split at h <;> cases h
    next hr => exact fault_of_readExactly hr
  · cases h

/-- A trace ends only where its source ends cleanly. -/
lemma fault_of_end (h : s.nextPacket = .ok none) : s.fault = none := by
  fun_induction nextPacket s with
  | case1 s hempty hfault => exact hfault
  | case2 => cases h
  | case3 => cases h
  | case4 => cases h
  | case5 => cases h
  | case6 => cases h
  | case7 => cases h
  | case8 s hne tag rest ht hkind after hs ih =>
      rw [← ih h, fault_of_skip hs, fault_of_readVarint ht]

end

end Source

/-! ### Streams that are asked again and again -/

namespace PacketStream

variable {s : Source}

lemma next_of_error {e : ReadError} (h : s.nextPacket = .error e) :
    (ofSource s).next = (some (.error e), ⟨s, true⟩) := by
  simp only [next, ofSource, Bool.false_eq_true, if_false, h]

lemma next_of_end (h : s.nextPacket = .ok none) :
    (ofSource s).next = (none, ofSource ⟨[], s.fault⟩) := by
  simp only [next, ofSource, Bool.false_eq_true, if_false, h]

lemma next_of_packet {after : Source} {packet : Bytes}
    (h : s.nextPacket = .ok (some (packet, after))) :
    (ofSource s).next = (some (.ok packet), ofSource after) := by
  simp only [next, ofSource, Bool.false_eq_true, if_false, h]

lemma next_of_failed {stream : PacketStream} (h : stream.failed = true) :
    stream.next = (none, stream) := by
  rw [next, if_pos h]

/-- A stream that handed out nothing does so again. -/
lemma next_next_of_none (stream : PacketStream) (h : stream.next.1 = none) :
    stream.next.2.next.1 = none := by
  obtain ⟨s, failed⟩ := stream
  cases failed with
  | true =>
      rw [next_of_failed rfl]
  | false =>
      cases hnext : s.nextPacket with
      | error e =>
          have hsome := next_of_error hnext
          rw [ofSource] at hsome
          rw [hsome] at h
          cases h
      | ok found =>
          cases found with
          | some found =>
              have hsome := next_of_packet hnext
              rw [ofSource] at hsome
              rw [hsome] at h
              cases h
          | none =>
              have hnone := next_of_end hnext
              rw [ofSource, Source.fault_of_end hnext] at hnone
              rw [hnone]
              exact congrArg Prod.fst (next_of_end Source.nextPacket_nil)

/-- What a stream hands out: the packets, and the error that ended them, if there is one. -/
def handedOut (s : Source) : List (Except ReadError Bytes) :=
  s.packets.1.map .ok ++ s.packets.2.toList.map .error

/-- **Asked again and again**, a stream hands out the packets and then the error, if there is
one. -/
theorem yields_packets (s : Source) : ∃ ended, Yields next (ofSource s) (handedOut s) ended := by
  induction hn : s.bytes.length using Nat.strong_induction_on generalizing s with
  | _ n ih =>
      rw [handedOut]
      cases hnext : s.nextPacket with
      | error e =>
          rw [Source.packets_of_error hnext]
          exact ⟨_, .item (next_of_error hnext) (.done (next_of_failed rfl))⟩
      | ok found =>
          cases found with
          | none =>
              rw [Source.packets_of_end hnext]
              exact ⟨_, .done (next_of_end hnext)⟩
          | some found =>
              obtain ⟨packet, after⟩ := found
              have hlt := Source.length_lt_of_nextPacket hnext
              obtain ⟨ended, hafter⟩ := ih _ (hn ▸ hlt) after rfl
              rw [Source.packets_of_next hnext]
              exact ⟨ended, .item (next_of_packet hnext) hafter⟩

lemma error_notMem_map_ok (e : ReadError) (packets : List Bytes) :
    .error e ∉ packets.map (Except.ok (ε := ReadError)) := by
  intro hmem
  obtain ⟨packet, -, hpacket⟩ := List.mem_map.mp hmem
  cases hpacket

/-- A stream that hands out packets and no error has just these. -/
lemma packets_of_yields {packets : List Bytes} {ended : PacketStream}
    (h : Yields next (ofSource s) (packets.map .ok) ended) : s.packets = (packets, none) := by
  obtain ⟨last, hyields⟩ := yields_packets s
  obtain ⟨heq, -⟩ := hyields.unique h
  rw [handedOut] at heq
  cases hfault : s.packets.2 with
  | none =>
      rw [hfault, Option.toList_none, List.map_nil, List.append_nil] at heq
      have hpackets : s.packets.1 = packets :=
        List.map_injective_iff.mpr (fun _ _ => Except.ok.inj) heq
      exact Prod.ext hpackets hfault
  | some e =>
      refine absurd ?_ (error_notMem_map_ok e packets)
      rw [← heq, hfault]
      exact List.mem_append_right _ (List.mem_singleton_self _)

/-- An error that is handed out is the last item, and what is in front of it are packets. -/
lemma eq_nil_of_handedOut {s : Source} {front back : List (Except ReadError Bytes)} {e : ReadError}
    (h : handedOut s = front ++ .error e :: back) :
    back = [] ∧ ∀ x ∈ front, ∃ packet, x = .ok packet := by
  have hnot : ∀ others, s.packets.1.map .ok ≠ front ++ .error e :: others := by
    intro others heq
    refine error_notMem_map_ok e s.packets.1 ?_
    rw [heq]
    exact List.mem_append_right _ List.mem_cons_self
  rw [handedOut] at h
  cases hfault : s.packets.2 with
  | none =>
      rw [hfault, Option.toList_none, List.map_nil, List.append_nil] at h
      exact absurd h (hnot back)
  | some last =>
      rw [hfault, Option.toList_some, List.map_singleton] at h
      rcases List.eq_nil_or_concat' back with rfl | ⟨others, x, rfl⟩
      · obtain ⟨hfront, -⟩ := List.append_inj' h rfl
        refine ⟨rfl, fun x hx => ?_⟩
        rw [← hfront] at hx
        obtain ⟨packet, -, rfl⟩ := List.mem_map.mp hx
        exact ⟨packet, rfl⟩
      · rw [← List.cons_append, ← List.append_assoc] at h
        exact absurd (List.append_inj' h rfl).1 (hnot others)

end PacketStream

/-! ### The two ways of reading -/

/-- A reader of fields is behind those it handed out when it comes to what it cannot read. -/
lemma Reader.asked_of_spelled {fs : List Field} {front : Bytes} (h : SpelledFields fs front)
    (stop : Bytes) :
    asked Reader.next (Reader.ofBytes (front ++ stop)) fs.length = .ofBytes stop := by
  induction fs generalizing front with
  | nil =>
      obtain ⟨parts, rfl, hparts⟩ := h
      cases hparts
      rfl
  | cons f fs ih =>
      obtain ⟨part, rest, rfl, hpart, hrest⟩ := spelledFields_cons_iff.mp h
      have hread : Field.read (part ++ (rest ++ stop)) = .ok (f, rest ++ stop) :=
        hpart.read_append (rest ++ stop)
      rw [List.append_assoc, List.length_cons, asked_succ_of_next (Reader.next_of_read hread),
        ih hrest]

/-- **Streaming and reading in memory agree.** Of any bytes, let a reader hand out the fields and a
stream the packets and errors, each asked until it hands out nothing. If the reader ends cleanly,
the stream hands out just the length-delimited fields with id 1, in order. If the reader comes to a
malformed field, the stream hands out these first, and, unless that field has a tag whose id is zero
or too large, just one error behind them and nothing else. In any case an error is the last item,
all others are packets, and the stream is silent from then on. -/
theorem PacketStream.agrees_with_reader (t : Bytes) :
    ∃ fs last items ended, Yields Reader.next (.ofBytes t) fs last ∧
      Yields PacketStream.next (.ofSource (.ofBytes t)) items ended ∧
      (last.malformed = false → items = (tracePackets fs).map .ok) ∧
      (last.malformed = true → (tracePackets fs).map .ok <+: items ∧
        (¬ Field.IdUnusable (asked Reader.next (.ofBytes t) fs.length).rest →
          ∃ e, items = (tracePackets fs).map .ok ++ [.error e])) ∧
      (∀ front e back, items = front ++ .error e :: back →
        back = [] ∧ ∀ x ∈ front, ∃ packet, x = .ok packet) ∧
      ∀ n, (asked PacketStream.next ended n).next.1 = none := by
  obtain ⟨front, stop, rfl, hfront, hstop⟩ := exists_stop_of_scan t
  obtain ⟨ended, hyields⟩ := yields_packets (.ofBytes (front ++ stop))
  have hitems : handedOut (.ofBytes (front ++ stop)) =
      (tracePackets (scan (front ++ stop)).fields).map .ok ++ handedOut (.ofBytes stop) := by
    rw [handedOut, Source.packets_of_spelled hfront, List.map_append, List.append_assoc, handedOut]
  refine ⟨_, _, _, ended, Reader.yields_scan _, hyields, ?_, ?_, fun _ _ _ => eq_nil_of_handedOut,
    hyields.silent next_next_of_none⟩
  · intro hclean
    rcases hstop with ⟨rfl, -⟩ | ⟨left, -, -, hunread⟩
    · rw [hitems, handedOut, Source.packets_of_end Source.nextPacket_nil]
      exact List.append_nil _
    · rw [Scan.malformed, hunread] at hclean
      cases hclean
  · intro hmalformed
    rcases hstop with ⟨-, hunread⟩ | ⟨left, hne, hread, -⟩
    · rw [Scan.malformed, hunread] at hmalformed
      cases hmalformed
    · refine ⟨⟨_, hitems.symm⟩, fun hid => ?_⟩
      rw [Reader.asked_of_spelled hfront] at hid
      obtain ⟨e, he⟩ := Source.exists_error_of_malformed hne hread hid
      exact ⟨e, by rw [hitems, handedOut, Source.packets_of_error he]; rfl⟩

end AtomTimeline
