import AtomTimeline.Bytes

/-!
Packets waiting to be parsed, in the order of their timestamps; of equal timestamps the one pushed
first comes first.

* `Sorter.push` and `Sorter.pop?` are the two operations, `Sorter.queue` is the order in which the
  packets come.
* Packets mostly arrive in order, and are taken out only once all have arrived. So those that arrive
  are held with the last to come first, where the next one finds its place at once; the first packet
  that is taken out turns them round, and the others are at hand then.
* `Sorter.queue_push`: a packet is put in front of the packets at the end of the queue that are
  later, and of no other. `Sorter.queue_of_pop?`: the packet taken out is the first of the queue.
-/

namespace AtomTimeline

/-- The packet sequence a packet came from, and which generation of its incremental state. -/
structure SequenceHandle where
  id : UInt32
  generation : UInt32
  deriving DecidableEq, Repr

/-- A packet with the timestamp that decides its place. -/
structure TimedPacket where
  ts : Int64
  sequence : SequenceHandle
  blob : Bytes
  deriving DecidableEq, Repr

/-- The packets waiting. -/
structure Sorter where
  /-- Packets in front of all others, first to come first. -/
  due : List TimedPacket
  /-- The other packets, last to come first. -/
  waiting : List TimedPacket
  deriving DecidableEq, Repr

namespace Sorter

/-- No packets waiting. -/
def empty : Sorter := ⟨[], []⟩

/-- The packets waiting, first to come first. -/
def queue (s : Sorter) : List TimedPacket := s.due ++ s.waiting.reverse

/-- The packets waiting, last to come first. -/
def backward (s : Sorter) : List TimedPacket :=
  match s.due with
  | [] => s.waiting
  | due => s.waiting ++ due.reverse

/-- Adds a packet. Those that are later stay behind it. -/
def push (s : Sorter) (p : TimedPacket) : Sorter :=
  ⟨[], s.backward.takeWhile (p.ts < ·.ts) ++ p :: s.backward.dropWhile (p.ts < ·.ts)⟩

/-- Takes out the packet that comes first. -/
def pop? (s : Sorter) : Option (TimedPacket × Sorter) :=
  match s.due with
  | p :: due => some (p, { s with due })
  | [] =>
    match s.waiting.reverse with
    | [] => none
    | p :: due => some (p, ⟨due, []⟩)

/-- The number of packets waiting. -/
def size (s : Sorter) : Nat := s.due.length + s.waiting.length

/-- No packet is waiting. -/
def isEmpty (s : Sorter) : Bool := s.due.isEmpty && s.waiting.isEmpty

@[simp] theorem queue_empty : empty.queue = [] := rfl

theorem queue_eq_nil_iff {s : Sorter} : s.queue = [] ↔ s = empty := by
  obtain ⟨due, waiting⟩ := s
  simp [queue, empty]

theorem length_queue (s : Sorter) : s.queue.length = s.size := by
  simp [queue, size]

theorem reverse_backward (s : Sorter) : s.backward.reverse = s.queue := by
  obtain ⟨due, waiting⟩ := s
  cases due <;> simp [backward, queue]

theorem queue_push (s : Sorter) (p : TimedPacket) :
    ∃ earlier later, s.queue = earlier ++ later ∧ (s.push p).queue = earlier ++ p :: later ∧
      (∀ q ∈ later, p.ts < q.ts) ∧ ∀ q ∈ earlier.getLast?, ¬ p.ts < q.ts := by
  refine ⟨(s.backward.dropWhile (p.ts < ·.ts)).reverse,
    (s.backward.takeWhile (p.ts < ·.ts)).reverse, ?_, ?_, ?_, ?_⟩
  · rw [← List.reverse_append, List.takeWhile_append_dropWhile, reverse_backward]
  · simp [queue, push]
  · intro q hq
    have all := List.all_takeWhile (l := s.backward) (p := (p.ts < ·.ts))
    simpa using List.all_eq_true.1 all q (List.mem_reverse.1 hq)
  · intro q hq
    have first := List.head?_dropWhile_not (p.ts < ·.ts) s.backward
    rw [List.getLast?_reverse] at hq
    rw [Option.mem_def.1 hq] at first
    simpa using first

theorem queue_of_pop? {s after : Sorter} {p : TimedPacket} (h : s.pop? = some (p, after)) :
    s.queue = p :: after.queue := by
  obtain ⟨due, waiting⟩ := s
  unfold pop? at h
  split at h
  · next hdue =>
    cases h
    cases hdue
    rfl
  · next hdue =>
    cases hdue
    split at h
    · cases h
    · next hwaiting =>
      cases h
      simp [queue, hwaiting]

theorem pop?_eq_none_iff {s : Sorter} : s.pop? = none ↔ s = empty := by
  constructor
  · intro h
    obtain ⟨due, waiting⟩ := s
    unfold pop? at h
    split at h
    · cases h
    · next hdue =>
      split at h
      · next hwaiting => simp_all [empty]
      · cases h
  · rintro rfl
    rfl

theorem exists_pop? {s : Sorter} {p : TimedPacket} {queue : List TimedPacket}
    (h : s.queue = p :: queue) : ∃ after, s.pop? = some (p, after) ∧ after.queue = queue := by
  cases hpop : s.pop? with
  | none =>
      rw [pop?_eq_none_iff.1 hpop] at h
      cases h
  | some found =>
      obtain ⟨q, after⟩ := found
      have hqueue := h.symm.trans (queue_of_pop? hpop)
      cases hqueue
      exact ⟨after, rfl, rfl⟩

end Sorter

end AtomTimeline
