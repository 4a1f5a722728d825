import AtomTimeline.Gzip.Inflate
import AtomTimeline.Trace.Stream

/-!
How much of a compressed trace is handed out if its data turns out corrupt.

Expanded bytes are handed out in runs. A run is asked for when all bytes before it are used up, and
one that comes upon corrupt data is lost as a whole.

* `Gzip.Corrupted.request` is the number of bytes asked for: `runLength`, or as many as a packet
  under way still takes, if that is more.
* `Gzip.Corrupted.next?` is the run that answers. Data is expanded by whole windows; a run is short
  if the one before it left a part of its window, or if a block of the file is used up.
* `Gzip.handedOut` is the number of bytes in all runs before the one that is lost.
-/

namespace AtomTimeline

namespace Gzip

/-- The least number of bytes asked for in one run. -/
def runLength : Nat := 1 <<< 18

/-- The number of bytes that are expanded together. -/
def windowLength : Nat := 1 <<< 15

/-- The number of bytes of the file that are taken up together. -/
def blockLength : Nat := 1 <<< 15

/-- The end of the window that the byte in front of a position lies in. -/
def windowEnd (position : Nat) : Nat :=
  (position + windowLength - 1) / windowLength * windowLength

/-! ### Pauses -/

/-- The number of bytes that the first `n` bytes of compressed data expand to. -/
def expandedLength (data : Bytes) (n : Nat) : Nat := (inflate (data.take n)).output.length

/-- The end of a full window behind which less than a byte is left of the compressed bytes at hand,
if there is one. Without the last of those bytes, data expands to `before` bytes, and with it, to
`after`. -/
def windowPause (before after : Nat) : List Nat :=
  if windowEnd before < after then [windowEnd before] else []

/-- The positions in the expanded bytes at which the compressed bytes at hand are used up, in order.
The data begins at position `start` of the file, and `length` bytes are expanded of it. -/
def pauses (start : Nat) (data : Bytes) (length : Nat) : List Nat :=
  let full := List.range' 1 ((start + data.length - 1) / blockLength)
  (full.flatMap fun i =>
    let used := i * blockLength - start
    let after := expandedLength data used
    windowPause (expandedLength data (used - 1)) after ++ [after]) ++
  windowPause (expandedLength data (data.length - 1)) length

/-! ### Runs -/

/-- The least number of bytes free in the buffer in which a packet is gathered. -/
def minFree : Nat := 32

/-- The size of the buffer that holds `held` bytes of a packet, of which `first` came first: it
doubles when fewer than `minFree` bytes are free. -/
def bufferSize (first held : Nat) : Nat :=
  let start := first + minFree
  start * ((held + minFree + start - 1) / start).nextPowerOfTwo

/-- Expanded bytes behind which the data is corrupt. -/
structure Corrupted where
  /-- The number of expanded bytes. -/
  length : Nat
  /-- Where expanding pauses. -/
  pauses : List Nat
  /-- The places of the packets that are longer than a run. -/
  packets : List PacketSpan

/-- How far handing out has come. -/
structure Progress where
  /-- The number of bytes handed out. -/
  given : Nat
  /-- The number of bytes expanded. -/
  made : Nat
  /-- The number of bytes that came first of the last packet begun. -/
  first : Nat

namespace Corrupted

/-- The number of bytes asked for next. -/
def request (c : Corrupted) (p : Progress) : Nat :=
  match c.packets.find? fun s => s.start < p.given && p.given < s.stop with
  | some s =>
    let held := p.given - s.start
    max runLength (min (bufferSize p.first held - held) (s.stop - p.given))
  | none => runLength

/-- Progress after a run up to position `given`. -/
def advance (c : Corrupted) (p : Progress) (given made : Nat) : Progress :=
  match c.packets.find? fun s => p.given ≤ s.start && s.start < given with
  | some s => ⟨given, made, min minFree (given - s.start)⟩
  | none => ⟨given, made, p.first⟩

/-- Progress after the next run, unless that is lost. Corruption behind a full window shows only
when the window after it is begun. -/
def next? (c : Corrupted) (p : Progress) : Option Progress :=
  let asked := p.given + c.request p
  if p.given < p.made then some (c.advance p p.made p.made)
  else
    let full := windowEnd asked
    match c.pauses.find? fun pause => p.made < pause && pause ≤ full with
    | some pause => some (c.advance p (min asked pause) pause)
    | none => if full < c.length then some (c.advance p asked full) else none

/-- The number of bytes handed out in at most `limit` more runs. -/
def givenAfter (c : Corrupted) : (limit : Nat) → Progress → Nat
  | 0, p => p.given
  | limit + 1, p =>
    match c.next? p with
    | some q => c.givenAfter limit q
    | none => p.given

end Corrupted

/-- The number of bytes handed out of a trace that expands to `output` before its data, from
position `start` of the file on, is found corrupt. -/
def handedOut (start : Nat) (data output : Bytes) : Nat :=
  let length := output.length
  let c : Corrupted :=
    ⟨length, pauses start data length, (Source.ofBytes output).longSpans runLength length⟩
  c.givenAfter length ⟨0, 0, 0⟩

end Gzip

end AtomTimeline
