import AtomTimeline.Trace.Source

/-!
Traces as streams of packets. A trace is a message whose length-delimited fields with id 1 are the
packets; fields of any other kind are skipped.

* `PacketStream.next` hands out the packets one by one; the first error is the last thing it hands
  out.
* `Source.packets` is the whole run of it: the packets in order and the error that ended it, if any.
* `Source.longSpans` are the places of the long packets.
-/

namespace AtomTimeline

/-- The id of the fields of a trace that are its packets. -/
def tracePacketField : Nat := 1

namespace Source

/-- The next packet of a trace and the source behind it, or nothing at a clean end. -/
def nextPacket (s : Source) : Except ReadError (Option (Bytes × Source)) :=
  if s.bytes = [] then
    match s.fault with
    | none => .ok none
    | some fault => .error (.source fault)
  else
    match _ht : s.readVarint with
    | .error e => .error e
    | .ok (tag, rest) =>
      if tag.toNat / 8 = tracePacketField ∧ tag.toNat % 8 = 2 then
        match rest.readVarint with
        | .error e => .error e
        | .ok (length, content) =>
          match content.readExactly length.toNat (.truncatedPacket length.toNat) with
          | .error e => .error e
          | .ok (packet, after) => .ok (some (packet, after))
      else
        match _hs : rest.skip (tag.toNat % 8) with
        | .error e => .error e
        | .ok after => nextPacket after
termination_by s.bytes.length
decreasing_by
  exact Nat.lt_of_le_of_lt (length_le_of_skip _hs) (length_lt_of_readVarint _ht)

theorem length_lt_of_nextPacket {s after : Source} {packet : Bytes}
    (h : s.nextPacket = .ok (some (packet, after))) : after.bytes.length < s.bytes.length := by
  fun_induction nextPacket s with
  | case1 => cases h
  | case2 => cases h
  | case3 => cases h
  | case4 => cases h
  | case5 => cases h
  | case6 s _ tag rest ht _ length content hl packet' after' hr =>
    cases h
    have := length_lt_of_readVarint ht
    have := length_lt_of_readVarint hl
    have := length_le_of_readExactly hr
    omega
  | case7 => cases h
  | case8 s _ tag rest ht _ after' hs ih =>
    have := ih h
    have := length_lt_of_readVarint ht
    have := length_le_of_skip hs
    omega

/-- The packets of a trace in order, and the error that ended the reading, if any. -/
def packets (s : Source) : List Bytes × Option ReadError :=
  match _h : s.nextPacket with
  | .error e => ([], some e)
  | .ok none => ([], none)
  | .ok (some (packet, after)) =>
    let (others, e) := packets after
    (packet :: others, e)
termination_by s.bytes.length
decreasing_by exact length_lt_of_nextPacket _h

end Source

/-- The place of a packet in a trace, up to the position where it is declared to end. -/
structure PacketSpan where
  start : Nat
  stop : Nat
  deriving DecidableEq, Repr

/-- The places of the packets of more than `least` bytes in a trace that ends at position `total`,
with that of a packet it ends in. -/
def Source.longSpans (least total : Nat) (s : Source) : List PacketSpan :=
  match _h : s.nextPacket with
  | .error (.truncatedPacket expected got) =>
    if least < expected then [⟨total - got, total - got + expected⟩] else []
  | .error _ => []
  | .ok none => []
  | .ok (some (packet, after)) =>
    let others := longSpans least total after
    if least < packet.length then
      let stop := total - after.bytes.length
      ⟨stop - packet.length, stop⟩ :: others
    else others
termination_by s.bytes.length
decreasing_by exact Source.length_lt_of_nextPacket _h

/-- The packets of a trace, handed out one by one. -/
structure PacketStream where
  source : Source
  /-- An error was handed out; the position behind it is unknown, so nothing follows. -/
  failed : Bool
  deriving DecidableEq, Repr

namespace PacketStream

/-- The stream at the start of a trace. -/
def ofSource (s : Source) : PacketStream := ⟨s, false⟩

/-- The next packet or error, if there is one, and the stream behind it. -/
def next (stream : PacketStream) : Option (Except ReadError Bytes) × PacketStream :=
  if stream.failed then (none, stream)
  else
    match stream.source.nextPacket with
    | .error e => (some (.error e), { stream with failed := true })
    | .ok none => (none, { stream with source := ⟨[], stream.source.fault⟩ })
    | .ok (some (packet, after)) => (some (.ok packet), { stream with source := after })

end PacketStream

end AtomTimeline
