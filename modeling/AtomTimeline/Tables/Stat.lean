/-!
Counters of what an import met. Each is known by its name, which readers of a report rely on.

* `Counters.get_add`: adding to one counter changes that counter alone.
-/

namespace AtomTimeline

/-- How much a counter matters. -/
inductive Severity where
  /-- Expected in normal traces. -/
  | info
  /-- Some data could not be imported as recorded. -/
  | dataLoss
  /-- Input was structurally wrong. -/
  | error
  deriving DecidableEq, Repr

/-- The name of a severity. -/
def Severity.name : Severity → String
  | info => "info"
  | dataLoss => "data_loss"
  | error => "error"

/-- What is counted. -/
inductive Stat where
  | atomTimestampMissing
  | atomUnknown
  | sliceOutOfOrder
  | packetMalformed
  | packetIgnored
  deriving DecidableEq, Repr

namespace Stat

/-- Every counter, in the order of reports. -/
def all : List Stat :=
  [atomTimestampMissing, atomUnknown, sliceOutOfOrder, packetMalformed, packetIgnored]

/-- The name of a counter. -/
def name : Stat → String
  | atomTimestampMissing => "atom_timestamp_missing"
  | atomUnknown => "atom_unknown"
  | sliceOutOfOrder => "slice_out_of_order"
  | packetMalformed => "packet_malformed"
  | packetIgnored => "packet_ignored"

/-- How much a counter matters. -/
def severity : Stat → Severity
  | atomTimestampMissing => .dataLoss
  | atomUnknown => .info
  | sliceOutOfOrder => .error
  | packetMalformed => .error
  | packetIgnored => .info

/-- What a counter says. -/
def description : Stat → String
  | atomTimestampMissing =>
    "A statsd atom had no per-atom timestamp; the packet timestamp was used."
  | atomUnknown =>
    "A statsd atom could not be decoded with the atom schema. Its args were " ++
      "decoded generically from the wire types."
  | sliceOutOfOrder =>
    "A slice started before the previous slice on the same track and was dropped."
  | packetMalformed => "A trace packet could not be fully decoded."
  | packetIgnored => "A trace packet had no field any importer handles."

end Stat

/-- The value of every counter. -/
structure Counters where
  atomTimestampMissing : Int64
  atomUnknown : Int64
  sliceOutOfOrder : Int64
  packetMalformed : Int64
  packetIgnored : Int64
  deriving DecidableEq, Repr

namespace Counters

/-- All counters at zero. -/
def zero : Counters := ⟨0, 0, 0, 0, 0⟩

/-- The value of a counter. -/
def get (c : Counters) : Stat → Int64
  | .atomTimestampMissing => c.atomTimestampMissing
  | .atomUnknown => c.atomUnknown
  | .sliceOutOfOrder => c.sliceOutOfOrder
  | .packetMalformed => c.packetMalformed
  | .packetIgnored => c.packetIgnored

/-- The counters with `n` added to one of them. -/
def add (c : Counters) (stat : Stat) (n : Int64) : Counters :=
  match stat with
  | .atomTimestampMissing => { c with atomTimestampMissing := c.atomTimestampMissing + n }
  | .atomUnknown => { c with atomUnknown := c.atomUnknown + n }
  | .sliceOutOfOrder => { c with sliceOutOfOrder := c.sliceOutOfOrder + n }
  | .packetMalformed => { c with packetMalformed := c.packetMalformed + n }
  | .packetIgnored => { c with packetIgnored := c.packetIgnored + n }

@[simp] theorem get_add (c : Counters) (stat other : Stat) (n : Int64) :
    (c.add stat n).get other = c.get other + if other = stat then n else 0 := by
  cases stat <;> cases other <;> simp [add, get]

@[simp] theorem add_zero (c : Counters) (stat : Stat) : c.add stat 0 = c := by
  cases stat <;> simp [add]

end Counters

end AtomTimeline
