import AtomTimeline.Trace.Stream
import AtomTimeline.Proofs.Wire.Grammar

/-!
The grammar of a trace, and a stream of packets as a reader of it. A trace is a message, but of the
tags only their wire types matter: any number may be the id of a field.

* `TraceField.SpelledBy`: the bytes are one of the spellings of a field of a trace.
* `Source.nextPacket_of_packet` and `Source.nextPacket_of_other`: in front of other bytes, a field
  is the next packet or is skipped. `Source.exists_error_of_cut`: of a field that is cut off, a
  stream makes an error, wherever the cut is. `Source.exists_field_of_nextPacket`: what makes no
  error begins with a field.
* `Source.packets_of_fields`: so fields in front of other bytes add their packets and nothing else.
  `Source.exists_spelledTrace_of_packets`: a trace is read without error only if it is the spellings
  of fields, one after the other.
-/

namespace AtomTimeline

/-! ### Fields of a trace -/

/-- A field of a trace, whatever number its id is. -/
structure TraceField where
  number : ℕ
  value : FieldValue

namespace TraceField

/-- The bytes are a spelling of the field: a varint of eight times the number plus that of the wire
type, and then a spelling of the value. -/
inductive SpelledBy (f : TraceField) : Bytes → Prop where
  | intro {tag : UInt64} {p body : Bytes} :
    Varint.Spells p tag → tag.toNat = 8 * f.number + f.value.wireType.code →
      f.value.SpelledBy body → SpelledBy f (p ++ body)

/-- The packet in a field, if it is one of packets. -/
def packet? (f : TraceField) : Option Bytes :=
  match f.value with
  | .lengthDelimited content => if f.number = tracePacketField then some content else none
  | _ => none

/-- Just the fields with this tag are packets. -/
lemma isSome_packet?_iff (f : TraceField) :
    f.packet?.isSome ↔ f.number = tracePacketField ∧ f.value.wireType.code = 2 := by
  obtain ⟨number, value⟩ := f
  cases value <;> simp [packet?, FieldValue.wireType, WireType.code]

lemma value_of_packet? {f : TraceField} {packet : Bytes} (h : f.packet? = some packet) :
    f.value = .lengthDelimited packet := by
  obtain ⟨number, value⟩ := f
  cases value with
  | lengthDelimited content =>
      simp only [packet?, Option.ite_none_right_eq_some, Option.some.injEq] at h
      rw [h.2]
  | _ => cases h

/-- A field is a tag, and behind it the value. -/
lemma SpelledBy.exists_tag {f : TraceField} {part : Bytes} (h : f.SpelledBy part) :
    ∃ tag body, Varint.read part = .ok (tag, body) ∧ tag.toNat / 8 = f.number ∧
      tag.toNat % 8 = f.value.wireType.code ∧
      FieldValue.read f.value.wireType body = .ok (f.value, []) := by
  cases h with
  | @intro tag p body hp htag hbody =>
      have hcode := f.value.wireType.code_lt
      have hread := hbody.read_append []
      rw [List.append_nil] at hread
      exact ⟨tag, body, hp.read_append body, by omega, by omega, hread⟩

lemma SpelledBy.ne_nil {f : TraceField} {part : Bytes} (h : f.SpelledBy part) : part ≠ [] := by
  obtain ⟨tag, body, ht, -⟩ := h.exists_tag
  rintro rfl
  cases ht

end TraceField

/-- The bytes are spellings of the fields of a trace, one after the other. -/
def SpelledTrace (fs : List TraceField) (b : Bytes) : Prop :=
  ∃ parts : List Bytes, b = parts.flatten ∧ List.Forall₂ TraceField.SpelledBy fs parts

lemma spelledTrace_nil : SpelledTrace [] [] := ⟨[], rfl, .nil⟩

lemma SpelledTrace.cons {f : TraceField} {fs : List TraceField} {part b : Bytes}
    (hpart : f.SpelledBy part) (h : SpelledTrace fs b) : SpelledTrace (f :: fs) (part ++ b) := by
  obtain ⟨parts, rfl, hparts⟩ := h
  exact ⟨part :: parts, List.flatten_cons.symm, .cons hpart hparts⟩

/-! ### Parts of a source -/

namespace Source

lemma readVarint_of_read {b rest : Bytes} {v : UInt64} (h : Varint.read b = .ok (v, rest)) :
    (ofBytes b).readVarint = .ok (v, ofBytes rest) := by
  simp only [readVarint, ofBytes, h]

lemma readVarint_of_read_error {b : Bytes} {fault : Varint.Fault × Bytes}
    (h : Varint.read b = .error fault) : ∃ e, (ofBytes b).readVarint = .error e := by
  obtain ⟨fault, left⟩ := fault
  cases fault with
  | cutOff => exact ⟨(ofBytes b).runOut .endOfInput, by simp only [readVarint, ofBytes, h]⟩
  | tooLong => exact ⟨.varintTooLarge, by simp only [readVarint, ofBytes, h]⟩

lemma readExactly_of_split {n : ℕ} {b front rest : Bytes}
    (h : Bytes.splitFront? n b = some (front, rest)) (short : ℕ → ReadError) :
    (ofBytes b).readExactly n short = .ok (front, ofBytes rest) := by
  simp only [readExactly, ofBytes, h]

lemma readExactly_of_short {n : ℕ} {b : Bytes} (h : Bytes.splitFront? n b = none)
    (short : ℕ → ReadError) : ∃ e, (ofBytes b).readExactly n short = .error e :=
  ⟨(ofBytes b).runOut (short b.length), by simp only [readExactly, ofBytes, h]⟩

/-- A length-delimited value that can be read is a length and as many bytes. -/
lemma exists_length_of_read {b rest content : Bytes}
    (h : FieldValue.read .lengthDelimited b = .ok (.lengthDelimited content, rest)) :
    ∃ length behind, Varint.read b = .ok (length, behind) ∧
      Bytes.splitFront? length.toNat behind = some (content, rest) := by
  obtain ⟨-, body, rfl, hbody⟩ := FieldValue.read_eq_ok_iff.mp h
  cases hbody with
  | @lengthDelimited length p _ hp hlen =>
      refine ⟨length, content ++ rest, ?_, Bytes.splitFront?_append hlen.symm rest⟩
      rw [List.append_assoc]
      exact hp.read_append _

/-- A length-delimited value that cannot be read has no length or too few bytes. -/
lemma length_cases_of_read_error {b left : Bytes}
    (h : FieldValue.read .lengthDelimited b = .error left) :
    (∃ fault, Varint.read b = .error fault) ∨
      ∃ length behind, Varint.read b = .ok (length, behind) ∧
        Bytes.splitFront? length.toNat behind = none := by
  rw [FieldValue.read] at h
  cases hv : Varint.read b with
  | error fault => exact .inl ⟨fault, rfl⟩
  | ok found =>
      obtain ⟨length, behind⟩ := found
      refine .inr ⟨length, behind, rfl, ?_⟩
      cases hs : Bytes.splitFront? length.toNat behind with
      | none => rfl
      | some parts =>
          simp only [hv, hs] at h
          cases h

/-- What a reader of fields takes as a value, a stream skips. -/
lemma skip_of_read {kind : WireType} {b rest : Bytes} {v : FieldValue}
    (h : FieldValue.read kind b = .ok (v, rest)) :
    (ofBytes b).skip kind.code = .ok (ofBytes rest) := by
  obtain ⟨rfl, body, rfl, hbody⟩ := FieldValue.read_eq_ok_iff.mp h
  cases hbody with
  | varint hp =>
      simp only [FieldValue.wireType, WireType.code, skip,
        readVarint_of_read (hp.read_append rest)]
  | fixed64 hlen _ =>
      simp only [FieldValue.wireType, WireType.code, skip,
        readExactly_of_split (Bytes.splitFront?_append hlen rest)]
  | lengthDelimited hp hlen =>
      simp only [FieldValue.wireType, WireType.code, skip, List.append_assoc,
        readVarint_of_read (hp.read_append _),
        readExactly_of_split (Bytes.splitFront?_append hlen.symm rest)]
  | fixed32 hlen _ =>
      simp only [FieldValue.wireType, WireType.code, skip,
        readExactly_of_split (Bytes.splitFront?_append hlen rest)]

/-- Where a reader of fields finds no value, a stream breaks off. -/
lemma skip_of_read_error {kind : WireType} {b left : Bytes}
    (h : FieldValue.read kind b = .error left) : ∃ e, (ofBytes b).skip kind.code = .error e := by
  cases kind with
  | varint =>
      rw [FieldValue.read] at h
      cases hv : Varint.read b with
      | ok found =>
          simp only [hv] at h
          cases h
      | error fault =>
          obtain ⟨e, he⟩ := readVarint_of_read_error hv
          exact ⟨e, by simp only [WireType.code, skip, he]⟩
  | fixed64 =>
      rw [FieldValue.read] at h
      cases hs : Bytes.splitFront? 8 b with
      | some parts =>
          simp only [hs] at h
          cases h
      | none =>
          obtain ⟨e, he⟩ := readExactly_of_short hs fun _ => .endOfInput
          exact ⟨e, by simp only [WireType.code, skip, he]⟩
  | lengthDelimited =>
      rcases length_cases_of_read_error h with ⟨fault, hv⟩ | ⟨length, behind, hv, hs⟩
      · obtain ⟨e, he⟩ := readVarint_of_read_error hv
        exact ⟨e, by simp only [WireType.code, skip, he]⟩
      · obtain ⟨e, he⟩ := readExactly_of_short hs (.truncatedField length.toNat)
        exact ⟨e, by simp only [WireType.code, skip, readVarint_of_read hv, he]⟩
  | fixed32 =>
      rw [FieldValue.read] at h
      cases hs : Bytes.splitFront? 4 b with
      | some parts =>
          simp only [hs] at h
          cases h
      | none =>
          obtain ⟨e, he⟩ := readExactly_of_short hs fun _ => .endOfInput
          exact ⟨e, by simp only [WireType.code, skip, he]⟩

/-- What is of no wire type cannot be skipped. -/
lemma skip_of_no_wireType {code : ℕ} (h : WireType.ofCode? code = none) (s : Source) :
    s.skip code = .error (.unknownWireType code) := by
  unfold skip
  split <;> first | rfl | cases h

/-! ### The next packet -/

lemma nextPacket_nil : (ofBytes []).nextPacket = .ok none := by
  rw [nextPacket]
  rfl

/-- The packet behind its tag: a length and as many bytes. -/
def packetBody (s : Source) : Except ReadError (Bytes × Source) :=
  s.readVarint.bind fun found =>
    found.2.readExactly found.1.toNat (.truncatedPacket found.1.toNat)

/-- Of a trace that has not ended, the first field is the next packet or is skipped. -/
lemma nextPacket_eq {s : Source} (hne : s.bytes ≠ []) :
    s.nextPacket = s.readVarint.bind fun found =>
      if found.1.toNat / 8 = tracePacketField ∧ found.1.toNat % 8 = 2 then
        found.2.packetBody.map some
      else (found.2.skip (found.1.toNat % 8)).bind nextPacket := by
  rw [nextPacket, if_neg hne]
  split
  · next e ht =>
    rw [ht]
    rfl
  · next tag rest ht =>
    rw [ht]
    simp only [Except.bind]
    by_cases hkind : tag.toNat / 8 = tracePacketField ∧ tag.toNat % 8 = 2
    · rw [if_pos hkind, if_pos hkind, packetBody]
      cases rest.readVarint with
      | error e => rfl
      | ok found =>
          obtain ⟨length, content⟩ := found
          simp only [Except.bind]
          cases content.readExactly length.toNat (.truncatedPacket length.toNat) <;> rfl
    · rw [if_neg hkind, if_neg hkind]
      split
      · next hs => rw [hs]
      · next hs => rw [hs]

/-- What follows a tag is a packet, or it is skipped. -/
lemma nextPacket_of_tag {b behind : Bytes} {tag : UInt64}
    (ht : Varint.read b = .ok (tag, behind)) :
    (ofBytes b).nextPacket =
      if tag.toNat / 8 = tracePacketField ∧ tag.toNat % 8 = 2 then
        (ofBytes behind).packetBody.map some
      else ((ofBytes behind).skip (tag.toNat % 8)).bind nextPacket := by
  have hne : (ofBytes b).bytes ≠ [] := by
    rintro hb
    rw [show b = [] from hb] at ht
    cases ht
  rw [nextPacket_eq hne, readVarint_of_read ht]
  rfl

/-- A packet ends where a length-delimited value does. -/
lemma packetBody_of_read {b rest content : Bytes}
    (h : FieldValue.read .lengthDelimited b = .ok (.lengthDelimited content, rest)) :
    (ofBytes b).packetBody = .ok (content, ofBytes rest) := by
  obtain ⟨length, behind, hl, hs⟩ := exists_length_of_read h
  simp only [packetBody, readVarint_of_read hl, Except.bind, readExactly_of_split hs]

/-- A packet breaks off where no length-delimited value can be read. -/
lemma packetBody_of_read_error {b left : Bytes}
    (h : FieldValue.read .lengthDelimited b = .error left) :
    ∃ e, (ofBytes b).packetBody = .error e := by
  rcases length_cases_of_read_error h with ⟨fault, hv⟩ | ⟨length, behind, hv, hs⟩
  · obtain ⟨e, he⟩ := readVarint_of_read_error hv
    exact ⟨e, by simp only [packetBody, he, Except.bind]⟩
  · obtain ⟨e, he⟩ := readExactly_of_short hs (.truncatedPacket length.toNat)
    exact ⟨e, by simp only [packetBody, readVarint_of_read hv, Except.bind, he]⟩

section

variable {f : TraceField} {part packet : Bytes}

/-- A packet in front is the next one. -/
lemma nextPacket_of_packet (h : f.SpelledBy part) (hpacket : f.packet? = some packet)
    (rest : Bytes) :
    (ofBytes (part ++ rest)).nextPacket = .ok (some (packet, ofBytes rest)) := by
  obtain ⟨tag, body, ht, hnumber, hcode, hv⟩ := h.exists_tag
  have hkind : tag.toNat / 8 = tracePacketField ∧ tag.toNat % 8 = 2 := by
    rw [hnumber, hcode, ← f.isSome_packet?_iff, hpacket, Option.isSome_some]
  rw [TraceField.value_of_packet? hpacket] at hv
  rw [nextPacket_of_tag (Varint.read_append_of_read ht rest), if_pos hkind,
    packetBody_of_read (FieldValue.read_append_of_read hv rest)]
  rfl

/-- Behind another field the next packet is the one that follows. -/
lemma nextPacket_of_other (h : f.SpelledBy part) (hother : f.packet? = none) (rest : Bytes) :
    (ofBytes (part ++ rest)).nextPacket = (ofBytes rest).nextPacket := by
  obtain ⟨tag, body, ht, hnumber, hcode, hv⟩ := h.exists_tag
  have hkind : ¬ (tag.toNat / 8 = tracePacketField ∧ tag.toNat % 8 = 2) := by
    rw [hnumber, hcode, ← f.isSome_packet?_iff, hother]
    exact Bool.false_ne_true
  rw [nextPacket_of_tag (Varint.read_append_of_read ht rest), if_neg hkind, hcode,
    skip_of_read (FieldValue.read_append_of_read hv rest)]
  rfl

/-- Behind a tag whose value cannot be read, a stream breaks off. -/
lemma exists_error_of_value {b behind left : Bytes} {tag : UInt64} {kind : WireType}
    (ht : Varint.read b = .ok (tag, behind)) (hcode : tag.toNat % 8 = kind.code)
    (hv : FieldValue.read kind behind = .error left) : ∃ e, (ofBytes b).nextPacket = .error e := by
  rw [nextPacket_of_tag ht]
  split
  · next hkind =>
    -- the wire type of a packet is length-delimited
    have hdelimited : kind = .lengthDelimited := by
      rw [hkind.2] at hcode
      cases kind <;> first | rfl | cases hcode
    subst hdelimited
    obtain ⟨e, he⟩ := packetBody_of_read_error hv
    exact ⟨e, by rw [he]; rfl⟩
  · obtain ⟨e, he⟩ := skip_of_read_error hv
    exact ⟨e, by rw [hcode, he]; rfl⟩

lemma exists_error_of_tag {b : Bytes} {fault : Varint.Fault × Bytes} (hne : b ≠ [])
    (ht : Varint.read b = .error fault) : ∃ e, (ofBytes b).nextPacket = .error e := by
  have hbytes : (ofBytes b).bytes ≠ [] := hne
  obtain ⟨e, he⟩ := readVarint_of_read_error ht
  exact ⟨e, by rw [nextPacket_eq hbytes, he]; rfl⟩

/-- **Of a field that is cut off** a stream makes an error, be the cut in the tag or in the value:
what can be read of the front is read the same of the whole, and so would take the whole. -/
theorem exists_error_of_cut {front back : Bytes} (h : f.SpelledBy (front ++ back))
    (hfront : front ≠ []) (hback : back ≠ []) : ∃ e, (ofBytes front).nextPacket = .error e := by
  obtain ⟨tag, body, ht, -, hcode, hv⟩ := h.exists_tag
  cases hread : Varint.read front with
  | error fault => exact exists_error_of_tag hfront hread
  | ok found =>
      obtain ⟨tag', behind⟩ := found
      have hwhole := Varint.read_append_of_read hread back
      rw [ht] at hwhole
      cases hwhole
      cases hvalue : FieldValue.read f.value.wireType behind with
      | error left => exact exists_error_of_value hread hcode hvalue
      | ok found =>
          obtain ⟨v, rest⟩ := found
          have hrest := FieldValue.read_append_of_read hvalue back
          rw [hv] at hrest
          simp only [Except.ok.injEq, Prod.mk.injEq, List.nil_eq, List.append_eq_nil_iff] at hrest
          exact absurd hrest.2.2 hback

/-- Where a stream makes no error, there is nothing or a field. -/
theorem exists_field_of_nextPacket {b : Bytes} (hne : b ≠ [])
    (h : ∀ e, (ofBytes b).nextPacket ≠ .error e) :
    ∃ (f : TraceField) (part rest : Bytes), b = part ++ rest ∧ f.SpelledBy part := by
  cases ht : Varint.read b with
  | error fault =>
      obtain ⟨e, he⟩ := exists_error_of_tag hne ht
      exact absurd he (h e)
  | ok found =>
      obtain ⟨tag, behind⟩ := found
      cases hkind : WireType.ofCode? (tag.toNat % 8) with
      | none =>
          have hnot : ¬ (tag.toNat / 8 = tracePacketField ∧ tag.toNat % 8 = 2) := by
            rintro ⟨-, hcode⟩
            rw [hcode] at hkind
            cases hkind
          refine absurd ?_ (h (.unknownWireType (tag.toNat % 8)))
          rw [nextPacket_of_tag ht, if_neg hnot, skip_of_no_wireType hkind]
          rfl
      | some kind =>
          have hcode := WireType.code_of_ofCode? hkind
          cases hv : FieldValue.read kind behind with
          | error left =>
              obtain ⟨e, he⟩ := exists_error_of_value ht hcode.symm hv
              exact absurd he (h e)
          | ok found =>
              obtain ⟨v, rest⟩ := found
              obtain ⟨p, rfl, hp⟩ := Varint.read_eq_ok_iff.mp ht
              obtain ⟨rfl, body, rfl, hbody⟩ := FieldValue.read_eq_ok_iff.mp hv
              refine ⟨⟨tag.toNat / 8, v⟩, p ++ body, rest, (List.append_assoc _ _ _).symm, ?_⟩
              exact .intro hp (by simp only; omega) hbody

end

/-! ### All packets -/

lemma packets_of_error {s : Source} {e : ReadError} (h : s.nextPacket = .error e) :
    s.packets = ([], some e) := by
  rw [packets]
  split
  · next he =>
    rw [h] at he
    cases he
    rfl
  · next he =>
    rw [h] at he
    cases he
  · next he =>
    rw [h] at he
    cases he

lemma packets_of_end {s : Source} (h : s.nextPacket = .ok none) : s.packets = ([], none) := by
  rw [packets]
  split
  · next he =>
    rw [h] at he
    cases he
  · rfl
  · next he =>
    rw [h] at he
    cases he

lemma packets_of_next {s after : Source} {packet : Bytes}
    (h : s.nextPacket = .ok (some (packet, after))) :
    s.packets = (packet :: after.packets.1, after.packets.2) := by
  rw [packets]
  split
  · next he =>
    rw [h] at he
    cases he
  · next he =>
    rw [h] at he
    cases he
  · next he =>
    rw [h] at he
    cases he
    rfl

/-- The packets of a trace are determined by the next one. -/
lemma packets_congr {s other : Source} (h : s.nextPacket = other.nextPacket) :
    s.packets = other.packets := by
  cases hnext : other.nextPacket with
  | error e =>
      rw [packets_of_error hnext]
      exact packets_of_error (h.trans hnext)
  | ok next =>
      cases next with
      | none =>
          rw [packets_of_end hnext]
          exact packets_of_end (h.trans hnext)
      | some found =>
          rw [packets_of_next hnext]
          exact packets_of_next (h.trans hnext)

/-- **Fields in front** of other bytes add their packets to a trace and nothing else. -/
theorem packets_of_fields {fs : List TraceField} {front : Bytes} (h : SpelledTrace fs front)
    (stop : Bytes) :
    (ofBytes (front ++ stop)).packets =
      (fs.filterMap TraceField.packet? ++ (ofBytes stop).packets.1, (ofBytes stop).packets.2) := by
  obtain ⟨parts, rfl, hparts⟩ := h
  induction hparts with
  | nil => rfl
  | @cons f part fs parts hpart _ ih =>
      rw [List.flatten_cons, List.append_assoc]
      cases hpacket : f.packet? with
      | none =>
          rw [packets_congr (nextPacket_of_other hpart hpacket _), ih,
            List.filterMap_cons_none hpacket]
      | some packet =>
          rw [packets_of_next (nextPacket_of_packet hpart hpacket _), ih,
            List.filterMap_cons_some hpacket, List.cons_append]

/-- A trace that is the spellings of fields, and nothing else, is read without error. -/
lemma packets_of_spelledTrace {fs : List TraceField} {t : Bytes} (h : SpelledTrace fs t) :
    (ofBytes t).packets = (fs.filterMap TraceField.packet?, none) := by
  have hpackets := packets_of_fields h []
  rwa [List.append_nil, packets_of_end nextPacket_nil, List.append_nil] at hpackets

/-- **What is read without error** is the spellings of fields, one after the other. -/
theorem exists_spelledTrace_of_packets {t : Bytes} (h : (ofBytes t).packets.2 = none) :
    ∃ fs, SpelledTrace fs t := by
  induction hn : t.length using Nat.strong_induction_on generalizing t with
  | _ n ih =>
      by_cases hne : t = []
      · exact ⟨[], hne ▸ spelledTrace_nil⟩
      · obtain ⟨f, part, rest, rfl, hpart⟩ := exists_field_of_nextPacket hne fun e he => by
          rw [packets_of_error he] at h
          cases h
        have hfront := packets_of_fields (.cons hpart spelledTrace_nil) rest
        rw [List.append_nil] at hfront
        rw [hfront] at h
        have hlt : rest.length < n := by
          have hpos := List.length_pos_iff.mpr hpart.ne_nil
          rw [List.length_append] at hn
          omega
        obtain ⟨fs, hrest⟩ := ih _ hlt h rfl
        exact ⟨f :: fs, .cons hpart hrest⟩

end Source

end AtomTimeline
