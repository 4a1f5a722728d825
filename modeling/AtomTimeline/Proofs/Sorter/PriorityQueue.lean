import AtomTimeline.Proofs.Sorter.StableOrder

/-!
A sorter is a stable priority queue, however pushing packets and taking them out are mixed.

* `Sorter.Call` are the calls, `Sorter.run` makes them and collects what is taken out.
* `Sorter.Served` says what a stable priority queue answers. It knows no order but that in which the
  packets were pushed: `Sorter.First` is the earliest packet, and of those with its timestamp the
  one pushed first.
* `Sorter.HeapServed` says what a heap answers that numbers the packets it is given and takes out a
  least one by timestamp and number. `Sorter.heapServed_iff`: that is the same, as long as the
  numbers do not run out.
* `Sorter.served_run`: a sorter whose queue is the stable order of what waits answers as a stable
  priority queue, and stays so. `Sorter.run_served` says it of every run of an empty sorter, with
  the count of what waits.
-/

namespace AtomTimeline

namespace Sorter

/-! ### Calls -/

/-- A call on a sorter. -/
inductive Call where
  | push (p : TimedPacket)
  | pop
  deriving DecidableEq, Repr

/-- The packets that calls push, in order. -/
def pushed : List Call → List TimedPacket
  | [] => []
  | .push p :: calls => p :: pushed calls
  | .pop :: calls => pushed calls

/-- Makes calls in order: what each of those that take out a packet gets, and the sorter left. -/
def run (s : Sorter) : List Call → List (Option TimedPacket) × Sorter
  | [] => ([], s)
  | .push p :: calls => (s.push p).run calls
  | .pop :: calls =>
    match s.pop? with
    | none => (none :: (s.run calls).1, (s.run calls).2)
    | some (p, after) => (some p :: (after.run calls).1, (after.run calls).2)

lemma run_pop_of_none {s : Sorter} (h : s.pop? = none) (calls : List Call) :
    s.run (.pop :: calls) = (none :: (s.run calls).1, (s.run calls).2) := by
  rw [run, h]

lemma run_pop_of_some {s after : Sorter} {p : TimedPacket} (h : s.pop? = some (p, after))
    (calls : List Call) :
    s.run (.pop :: calls) = (some p :: (after.run calls).1, (after.run calls).2) := by
  rw [run, h]

/-! ### Stable priority queues -/

/-- Of packets in the order in which they were pushed this one comes first: no other is earlier, and
those with its timestamp were pushed behind it. The others are left, in their order. -/
inductive First : List TimedPacket → TimedPacket → List TimedPacket → Prop where
  | intro {before behind : List TimedPacket} {p : TimedPacket} :
    (∀ q ∈ before, p.ts < q.ts) → (∀ q ∈ behind, p.ts ≤ q.ts) →
      First (before ++ p :: behind) p (before ++ behind)

/-- What a stable priority queue answers to calls, the packets that wait being listed in the order
in which they were pushed, before the calls and after them. -/
inductive Served : List TimedPacket → List Call → List (Option TimedPacket) →
    List TimedPacket → Prop where
  | done {waiting : List TimedPacket} : Served waiting [] [] waiting
  | push {waiting left : List TimedPacket} {p : TimedPacket} {calls : List Call}
    {answers : List (Option TimedPacket)} :
    Served (waiting ++ [p]) calls answers left → Served waiting (.push p :: calls) answers left
  | take {waiting others left : List TimedPacket} {p : TimedPacket} {calls : List Call}
    {answers : List (Option TimedPacket)} :
    First waiting p others → Served others calls answers left →
      Served waiting (.pop :: calls) (some p :: answers) left
  | nothing {left : List TimedPacket} {calls : List Call} {answers : List (Option TimedPacket)} :
    Served [] calls answers left → Served [] (.pop :: calls) (none :: answers) left

variable {s : Sorter} {waiting left : List TimedPacket} {calls : List Call}
  {answers : List (Option TimedPacket)}

lemma sorted_of_queue_eq (h : s.queue = sortByTime TimedPacket.ts waiting) : s.Sorted := by
  rw [Sorted, h]
  exact inTime_sortByTime _ _

/-- A packet that is pushed waits behind the others. -/
lemma queue_push_of_queue_eq (h : s.queue = sortByTime TimedPacket.ts waiting) (p : TimedPacket) :
    (s.push p).queue = sortByTime TimedPacket.ts (waiting ++ [p]) := by
  rw [queue_push_eq_sort (sorted_of_queue_eq h), h, sortByTime_sortByTime_append]

/-- Nothing is taken out only if nothing waits. -/
lemma pop?_eq_none_of_queue_eq (h : s.queue = sortByTime TimedPacket.ts waiting) :
    s.pop? = none ↔ waiting = [] := by
  have hlength : s.queue.length = waiting.length := by
    rw [h, (sortByTime_perm _ _).length_eq]
  rw [pop?_eq_none_iff, ← queue_eq_nil_iff, ← List.length_eq_zero_iff, hlength,
    List.length_eq_zero_iff]

/-- **A sorter answers as a stable priority queue does**, if its queue is the stable order of what
waits, and its queue is so again after the calls. -/
theorem served_run (h : s.queue = sortByTime TimedPacket.ts waiting) (calls : List Call) :
    ∃ left, Served waiting calls (s.run calls).1 left ∧
      (s.run calls).2.queue = sortByTime TimedPacket.ts left := by
  induction calls generalizing s waiting with
  | nil => exact ⟨waiting, .done, h⟩
  | cons call calls ih =>
      cases call with
      | push p =>
          obtain ⟨left, hserved, hqueue⟩ := ih (queue_push_of_queue_eq h p)
          exact ⟨left, .push hserved, hqueue⟩
      | pop =>
          cases hpop : s.pop? with
          | none =>
              obtain rfl := (pop?_eq_none_of_queue_eq h).mp hpop
              obtain ⟨left, hserved, hqueue⟩ := ih h
              rw [run_pop_of_none hpop]
              exact ⟨left, .nothing hserved, hqueue⟩
          | some found =>
              obtain ⟨p, after⟩ := found
              rw [queue_of_pop? hpop] at h
              obtain ⟨before, behind, rfl, hbefore, hbehind, hrest⟩ :=
                exists_first_of_sortByTime h.symm
              obtain ⟨left, hserved, hqueue⟩ := ih hrest
              rw [run_pop_of_some hpop]
              exact ⟨left, .take (.intro hbefore hbehind) hserved, hqueue⟩

/-- There is just one way to answer. -/
theorem Served.answers_eq (h : Served waiting calls answers left)
    (hs : s.queue = sortByTime TimedPacket.ts waiting) : answers = (s.run calls).1 := by
  induction h generalizing s with
  | done => rfl
  | push _ ih => exact ih (queue_push_of_queue_eq hs _)
  | @take waiting others left p calls answers hfirst _ ih =>
      obtain ⟨hbefore, hbehind⟩ := hfirst
      rw [sortByTime_of_first hbefore hbehind] at hs
      obtain ⟨after, hpop, hafter⟩ := exists_pop? hs
      rw [run_pop_of_some hpop, ← ih hafter]
  | nothing _ ih => rw [run_pop_of_none ((pop?_eq_none_of_queue_eq hs).mpr rfl), ← ih hs]

/-- What waits and what was taken out are the packets that waited and those pushed. -/
lemma Served.length_add (h : Served waiting calls answers left) :
    left.length + (answers.filterMap id).length = waiting.length + (pushed calls).length := by
  induction h with
  | done => rfl
  | push _ ih =>
      rw [ih, pushed, List.length_append, List.length_singleton, List.length_cons]
      omega
  | take hfirst _ ih =>
      obtain ⟨-, -⟩ := hfirst
      simp only [List.filterMap_cons, id_eq, List.length_cons, List.length_append, pushed] at ih ⊢
      omega
  | nothing _ ih => exact ih

/-! ### Heaps that number what they are given -/

/-- A packet in a heap, with its number. -/
structure HeapEntry where
  packet : TimedPacket
  number : UInt64
  deriving DecidableEq, Repr

/-- The order in a heap: by timestamp, and by number where the timestamps are equal. -/
def HeapEntry.Before (e other : HeapEntry) : Prop :=
  e.packet.ts < other.packet.ts ∨ e.packet.ts = other.packet.ts ∧ e.number < other.number

/-- What a heap answers to calls. It gives a packet the next number, and takes out an entry such
that no other comes before it. -/
inductive HeapServed : Multiset HeapEntry → UInt64 → List Call → List (Option TimedPacket) →
    Prop where
  | done {heap : Multiset HeapEntry} {next : UInt64} : HeapServed heap next [] []
  | push {heap : Multiset HeapEntry} {next : UInt64} {p : TimedPacket} {calls : List Call}
    {answers : List (Option TimedPacket)} :
    HeapServed (⟨p, next⟩ ::ₘ heap) (next + 1) calls answers →
      HeapServed heap next (.push p :: calls) answers
  | take {others : Multiset HeapEntry} {top : HeapEntry} {next : UInt64} {calls : List Call}
    {answers : List (Option TimedPacket)} :
    (∀ e ∈ others, ¬ e.Before top) → HeapServed others next calls answers →
      HeapServed (top ::ₘ others) next (.pop :: calls) (some top.packet :: answers)
  | nothing {next : UInt64} {calls : List Call} {answers : List (Option TimedPacket)} :
    HeapServed 0 next calls answers → HeapServed 0 next (.pop :: calls) (none :: answers)

/-- The entries of a heap in the order of their numbers, which are all given out by now, and enough
of them are left for the calls to come. -/
structure InNumber (entries : List HeapEntry) (next : UInt64) (calls : List Call) : Prop where
  ascending : entries.Pairwise fun e other => e.number < other.number
  given : ∀ e ∈ entries, e.number < next
  enough : next.toNat + (pushed calls).length < 2 ^ 64

namespace InNumber

variable {entries before behind : List HeapEntry} {e : HeapEntry} {next : UInt64} {p : TimedPacket}

lemma push (h : InNumber entries next (.push p :: calls)) :
    InNumber (entries ++ [⟨p, next⟩]) (next + 1) calls := by
  have henough := h.enough
  rw [pushed, List.length_cons] at henough
  have hnext : (next + 1).toNat = next.toNat + 1 := by
    rw [UInt64.toNat_add]
    exact Nat.mod_eq_of_lt (show next.toNat + 1 < 2 ^ 64 by omega)
  have hstep : next < next + 1 := UInt64.lt_iff_toNat_lt.mpr (by omega)
  refine ⟨?_, ?_, by omega⟩
  · refine List.pairwise_append.mpr ⟨h.ascending, List.pairwise_singleton _ _, fun e he o ho => ?_⟩
    rw [List.mem_singleton.mp ho]
    exact h.given e he
  · intro e he
    rcases List.mem_append.mp he with he | he
    · exact UInt64.lt_trans (h.given e he) hstep
    · rw [List.mem_singleton.mp he]
      exact hstep

lemma take (h : InNumber (before ++ e :: behind) next (.pop :: calls)) :
    InNumber (before ++ behind) next calls := by
  have hsub : (before ++ behind).Sublist (before ++ e :: behind) :=
    (List.sublist_cons_self e behind).append_left before
  exact ⟨h.ascending.sublist hsub, fun o ho => h.given o (hsub.subset ho), h.enough⟩

/-- An entry comes before none of the others just if its packet is the next one. -/
lemma forall_not_before_iff (h : InNumber (before ++ e :: behind) next calls) :
    (∀ o ∈ before ++ behind, ¬ o.Before e) ↔
      (∀ o ∈ before, e.packet.ts < o.packet.ts) ∧ ∀ o ∈ behind, e.packet.ts ≤ o.packet.ts := by
  obtain ⟨-, hbehind, hbefore⟩ := List.pairwise_append.mp h.ascending
  constructor
  · intro hall
    refine ⟨fun o ho => ?_, fun o ho => ?_⟩
    · have hnot := hall o (List.mem_append_left _ ho)
      have hle : e.packet.ts ≤ o.packet.ts := Int64.not_lt.mp fun hlt => hnot (.inl hlt)
      refine Int64.lt_of_le_of_ne hle fun heq => hnot (.inr ⟨heq.symm, ?_⟩)
      exact hbefore o ho e List.mem_cons_self
    · exact Int64.not_lt.mp fun hlt => hall o (List.mem_append_right _ ho) (.inl hlt)
  · rintro ⟨hlater, hle⟩ o ho hcome
    rcases List.mem_append.mp ho with ho | ho <;> rcases hcome with hlt | ⟨heq, hnum⟩
    · exact Int64.lt_irrefl (Int64.lt_trans hlt (hlater o ho))
    · exact Int64.lt_irrefl (heq ▸ hlater o ho)
    · exact Int64.not_lt.mpr (hle o ho) hlt
    · exact UInt64.lt_asymm hnum ((List.pairwise_cons.mp hbehind).1 o ho)

end InNumber

variable {entries : List HeapEntry} {next : UInt64}

lemma HeapServed.served {heap : Multiset HeapEntry} (h : HeapServed heap next calls answers)
    (hheap : heap = ↑entries) (hnumber : InNumber entries next calls) :
    ∃ left, Served (entries.map HeapEntry.packet) calls answers left := by
  induction h generalizing entries with
  | done => exact ⟨_, .done⟩
  | @push heap next p calls answers _ ih =>
      have hentries : HeapEntry.mk p next ::ₘ heap = ↑(entries ++ [HeapEntry.mk p next]) := by
        rw [hheap, Multiset.cons_coe, Multiset.coe_eq_coe]
        exact (List.perm_append_singleton _ _).symm
      obtain ⟨left, hserved⟩ := ih hentries hnumber.push
      rw [List.map_append] at hserved
      exact ⟨left, .push hserved⟩
  | @take others top next calls answers hleast _ ih =>
      have htop : top ∈ entries := by
        rw [← Multiset.mem_coe, ← hheap]
        exact Multiset.mem_cons_self top others
      obtain ⟨before, behind, rfl⟩ := List.append_of_mem htop
      have hothers : others = ↑(before ++ behind) := by
        rw [Multiset.coe_eq_coe.mpr List.perm_middle, ← Multiset.cons_coe] at hheap
        exact Multiset.cons_inj_right top |>.mp hheap
      subst hothers
      obtain ⟨hbefore, hbehind⟩ := hnumber.forall_not_before_iff.mp hleast
      obtain ⟨left, hserved⟩ := ih rfl hnumber.take
      rw [List.map_append] at hserved
      rw [List.map_append, List.map_cons]
      exact ⟨left, .take (.intro (by simpa using hbefore) (by simpa using hbehind)) hserved⟩
  | nothing _ ih =>
      obtain rfl := Multiset.coe_eq_zero entries |>.mp hheap.symm
      obtain ⟨left, hserved⟩ := ih rfl ⟨.nil, by simp, hnumber.enough⟩
      exact ⟨left, .nothing hserved⟩

lemma Served.heapServed (h : Served waiting calls answers left)
    (hwaiting : entries.map HeapEntry.packet = waiting) (hnumber : InNumber entries next calls) :
    HeapServed ↑entries next calls answers := by
  induction h generalizing entries next with
  | done => exact .done
  | @push waiting left p calls answers _ ih =>
      have hentries : (entries ++ [HeapEntry.mk p next]).map HeapEntry.packet = waiting ++ [p] := by
        rw [List.map_append, hwaiting, List.map_singleton]
      have hnext := ih hentries hnumber.push
      rw [Multiset.coe_eq_coe.mpr (List.perm_append_singleton _ _), ← Multiset.cons_coe] at hnext
      exact .push hnext
  | @take waiting others left p calls answers hfirst _ ih =>
      obtain ⟨hbefore, hbehind⟩ := hfirst
      obtain ⟨before, rest, rfl, rfl, hrest⟩ := List.map_eq_append_iff.mp hwaiting
      obtain ⟨top, behind, rfl, rfl, rfl⟩ := List.map_eq_cons_iff.mp hrest
      have hleast := hnumber.forall_not_before_iff.mpr
        ⟨by simpa using hbefore, by simpa using hbehind⟩
      rw [Multiset.coe_eq_coe.mpr List.perm_middle, ← Multiset.cons_coe]
      exact .take (by simpa using hleast) (ih (List.map_append) hnumber.take)
  | nothing _ ih =>
      obtain rfl := List.map_eq_nil_iff.mp hwaiting
      exact .nothing (ih rfl ⟨.nil, by simp, hnumber.enough⟩)

/-- **A heap that numbers its packets** answers as a stable priority queue does, as long as the
numbers do not run out: it never has to choose. -/
theorem heapServed_iff (hnumber : InNumber entries next calls) :
    HeapServed ↑entries next calls answers ↔
      ∃ left, Served (entries.map HeapEntry.packet) calls answers left := by
  constructor
  · exact fun h => h.served rfl hnumber
  · rintro ⟨left, h⟩
    exact h.heapServed rfl hnumber

/-! ### Runs of an empty sorter -/

/-- **A sorter is a stable priority queue.** However packets are pushed and taken out, each call
gets the packet a stable priority queue gives: of those pushed and not yet taken out the earliest,
and of those with its timestamp the one pushed first, unchanged; no other answers would be those of
such a queue. What waits is counted by pushes less packets taken out, and the next call gets nothing
just if as many were taken out as pushed. With fewer than `2 ^ 64` pushes these are also the only
answers of a heap that numbers its packets in a word and takes out a least one by timestamp and
number. -/
theorem run_served (calls : List Call) :
    (∃ waiting, Served [] calls (empty.run calls).1 waiting ∧
      (empty.run calls).2.size = waiting.length ∧
      ∀ p after, (empty.run calls).2.pop? = some (p, after) →
        ∃ others, First waiting p others) ∧
      (∀ answers waiting, Served [] calls answers waiting → answers = (empty.run calls).1) ∧
      (empty.run calls).2.size + ((empty.run calls).1.filterMap id).length =
        (pushed calls).length ∧
      ((empty.run calls).2.pop? = none ↔
        ((empty.run calls).1.filterMap id).length = (pushed calls).length) ∧
      ((pushed calls).length < 2 ^ 64 →
        ∀ answers, HeapServed 0 0 calls answers ↔ answers = (empty.run calls).1) := by
  have hempty : empty.queue = sortByTime TimedPacket.ts [] := List.mergeSort_nil.symm
  obtain ⟨waiting, hserved, hqueue⟩ := served_run hempty calls
  have hsize : (empty.run calls).2.size = waiting.length := by
    rw [← length_queue, hqueue, (sortByTime_perm _ _).length_eq]
  have hcount := hserved.length_add
  rw [List.length_nil, Nat.zero_add] at hcount
  refine ⟨⟨waiting, hserved, hsize, fun p after hpop => ?_⟩, fun answers waiting h =>
    h.answers_eq hempty, by rw [hsize, hcount], ?_, fun hfew answers => ?_⟩
  · rw [queue_of_pop? hpop] at hqueue
    obtain ⟨before, behind, rfl, hbefore, hbehind, -⟩ := exists_first_of_sortByTime hqueue.symm
    exact ⟨_, .intro hbefore hbehind⟩
  · rw [pop?_eq_none_of_queue_eq hqueue, ← List.length_eq_zero_iff]
    omega
  · have hnumber : InNumber [] 0 calls :=
      ⟨.nil, by simp, by rwa [UInt64.toNat_zero, Nat.zero_add]⟩
    rw [← Multiset.coe_nil, heapServed_iff hnumber]
    constructor
    · rintro ⟨left, h⟩
      exact h.answers_eq hempty
    · rintro rfl
      exact ⟨waiting, hserved⟩

/-- Of two packets with timestamp 30 the one pushed first comes first, though two others came in
between. -/
example :
    ((empty.run
      [.push ⟨30, ⟨0, 0⟩, [1]⟩, .push ⟨10, ⟨0, 0⟩, [2]⟩, .pop, .push ⟨30, ⟨0, 0⟩, [3]⟩,
        .push ⟨20, ⟨0, 0⟩, [4]⟩, .pop, .pop, .pop, .pop]).1.map
      (Option.map TimedPacket.blob)) = [some [2], some [4], some [1], some [3], none] := by
  decide

end Sorter

end AtomTimeline
