import Mathlib.Tactic
import AtomTimeline.Sorter

/-!
The queue of a sorter is in the stable order of the timestamps.

* `sortByTime` is that order: ascending, and what has equal timestamps stays as it was
  (`filter_sortByTime`). No other list is in order and agrees with it at each timestamp
  (`eq_of_filter_time_eq`), so a list may be shown to be in stable order timestamp by timestamp.
* `Sorter.queue_foldl_push`: pushing packets puts them into the stable order together with those
  already waiting, the latter counting as earlier.
-/

namespace AtomTimeline

/-! ### The stable order -/

section

variable {α β : Type} (ts : α → Int64)

/-- The list in ascending order of timestamps, elements with equal timestamps in the order in which
they were. -/
def sortByTime (l : List α) : List α := l.mergeSort fun a b => decide (ts a ≤ ts b)

/-- The timestamps of the list ascend. -/
def InTime (l : List α) : Prop := l.Pairwise fun a b => ts a ≤ ts b

lemma sortByTime_perm (l : List α) : (sortByTime ts l).Perm l := List.mergeSort_perm _ _

lemma inTime_sortByTime (l : List α) : InTime ts (sortByTime ts l) := by
  have h := @List.pairwise_mergeSort _ (fun a b => decide (ts a ≤ ts b))
    (fun a b c hab hbc => by simpa using Int64.le_trans (by simpa using hab) (by simpa using hbc))
    (fun a b => by simpa using Int64.le_total (ts a) (ts b)) l
  exact h.imp fun hab => by simpa using hab

/-- The elements with one timestamp. -/
def atTime (t : Int64) (l : List α) : List α := l.filter fun a => ts a = t

variable {ts}

lemma atTime_cons_self {a : α} {t : Int64} (h : ts a = t) (l : List α) :
    atTime ts t (a :: l) = a :: atTime ts t l := by
  simp [atTime, h]

lemma atTime_cons_ne {a : α} {t : Int64} (h : ts a ≠ t) (l : List α) :
    atTime ts t (a :: l) = atTime ts t l := by
  simp [atTime, h]

lemma atTime_append (t : Int64) (l m : List α) :
    atTime ts t (l ++ m) = atTime ts t l ++ atTime ts t m := List.filter_append l m

@[simp] lemma atTime_nil (t : Int64) : atTime ts t [] = [] := rfl

lemma mem_atTime {t : Int64} {l : List α} {a : α} : a ∈ atTime ts t l ↔ a ∈ l ∧ ts a = t := by
  simp [atTime]

/-- The sort is stable: it leaves the elements with one timestamp in their order. -/
lemma filter_sortByTime (t : Int64) (l : List α) :
    atTime ts t (sortByTime ts l) = atTime ts t l := by
  have hsub : (atTime ts t l).Sublist (sortByTime ts l) := by
    refine List.sublist_mergeSort
      (fun a b c hab hbc => by simpa using Int64.le_trans (by simpa using hab) (by simpa using hbc))
      (fun a b => by simpa using Int64.le_total (ts a) (ts b)) ?_ List.filter_sublist
    refine List.pairwise_of_forall_mem_list fun a ha b hb => ?_
    rw [mem_atTime] at ha hb
    simp [ha.2, hb.2]
  have hself : atTime ts t (atTime ts t l) = atTime ts t l := by simp [atTime]
  have hlen : (atTime ts t (sortByTime ts l)).length = (atTime ts t l).length :=
    ((sortByTime_perm ts l).filter _).length_eq
  refine ((?_ : (atTime ts t l).Sublist _).eq_of_length hlen.symm).symm
  rw [← hself]
  exact hsub.filter _

/-- **The stable order is unique**: two lists in order that agree at each timestamp are equal. -/
theorem eq_of_filter_time_eq {l m : List α} (hl : InTime ts l) (hm : InTime ts m)
    (h : ∀ t, atTime ts t l = atTime ts t m) : l = m := by
  induction l generalizing m with
  | nil =>
      cases m with
      | nil => rfl
      | cons b m => simpa [atTime] using h (ts b)
  | cons a l ih =>
      cases m with
      | nil => simpa [atTime] using h (ts a)
      | cons b m =>
          have ha : a ∈ b :: m := by
            have : a ∈ atTime ts (ts a) (b :: m) := h (ts a) ▸ by simp [atTime]
            exact (mem_atTime.mp this).1
          have hb : b ∈ a :: l := by
            have : b ∈ atTime ts (ts b) (a :: l) := h (ts b) ▸ by simp [atTime]
            exact (mem_atTime.mp this).1
          obtain ⟨hal, hltail⟩ := List.pairwise_cons.mp hl
          obtain ⟨hbm, hmtail⟩ := List.pairwise_cons.mp hm
          have hts : ts a = ts b := by
            refine Int64.le_antisymm ?_ ?_
            · rcases List.mem_cons.mp hb with rfl | hb
              · exact Int64.le_refl _
              · exact hal b hb
            · rcases List.mem_cons.mp ha with rfl | ha
              · exact Int64.le_refl _
              · exact hbm a ha
          have hhead := h (ts a)
          rw [atTime_cons_self rfl, atTime_cons_self hts.symm, List.cons.injEq] at hhead
          obtain ⟨rfl, htail⟩ := hhead
          refine congrArg (a :: ·) (ih hltail hmtail fun t => ?_)
          by_cases ht : ts a = t
          · rw [← ht, htail]
          · have := h t
            rwa [atTime_cons_ne ht, atTime_cons_ne ht] at this

/-- A list in order that agrees with another at each timestamp is its stable order. -/
lemma eq_sortByTime {l m : List α} (hm : InTime ts m) (h : ∀ t, atTime ts t m = atTime ts t l) :
    m = sortByTime ts l :=
  eq_of_filter_time_eq hm (inTime_sortByTime ts l) fun t => by rw [h, filter_sortByTime]

/-- Sorting a front first changes nothing. -/
lemma sortByTime_sortByTime_append (l m : List α) :
    sortByTime ts (sortByTime ts l ++ m) = sortByTime ts (l ++ m) :=
  eq_sortByTime (inTime_sortByTime ts _) fun t => by
    rw [filter_sortByTime, atTime_append, atTime_append, filter_sortByTime]

/-- Of two lists the first comes first in the stable order, if none of its elements is later than
one of the second. -/
lemma sortByTime_append {l m : List α} (h : ∀ a ∈ l, ∀ b ∈ m, ts a ≤ ts b) :
    sortByTime ts (l ++ m) = sortByTime ts l ++ sortByTime ts m := by
  refine (eq_sortByTime ?_ fun t => ?_).symm
  · refine List.pairwise_append.mpr
      ⟨inTime_sortByTime ts l, inTime_sortByTime ts m, fun a ha b hb => ?_⟩
    exact h a ((sortByTime_perm ts l).mem_iff.mp ha) b ((sortByTime_perm ts m).mem_iff.mp hb)
  · rw [atTime_append, filter_sortByTime, filter_sortByTime, atTime_append]

/-- The first of the earliest elements is the first one in the stable order. -/
lemma sortByTime_of_first {before behind : List α} {a : α} (hbefore : ∀ b ∈ before, ts a < ts b)
    (hbehind : ∀ b ∈ behind, ts a ≤ ts b) :
    sortByTime ts (before ++ a :: behind) = a :: sortByTime ts (before ++ behind) := by
  refine (eq_sortByTime ?_ fun t => ?_).symm
  · refine List.pairwise_cons.mpr ⟨fun b hb => ?_, inTime_sortByTime ts _⟩
    rw [(sortByTime_perm ts _).mem_iff, List.mem_append] at hb
    exact hb.elim (fun h => Int64.le_of_lt (hbefore b h)) (hbehind b)
  · by_cases ht : ts a = t
    · have hnone : atTime ts t before = [] := by
        rw [List.eq_nil_iff_forall_not_mem]
        intro b hb
        obtain ⟨hb, hts⟩ := mem_atTime.mp hb
        exact Int64.lt_irrefl (hts ▸ ht ▸ hbefore b hb)
      rw [atTime_cons_self ht, filter_sortByTime, atTime_append, atTime_append, hnone,
        atTime_cons_self ht, List.nil_append, List.nil_append]
    · rw [atTime_cons_ne ht, filter_sortByTime, atTime_append, atTime_append, atTime_cons_ne ht]

/-- What comes first in the stable order is the first of the earliest elements. -/
lemma exists_first_of_sortByTime {l rest : List α} {a : α} (h : sortByTime ts l = a :: rest) :
    ∃ before behind, l = before ++ a :: behind ∧ (∀ b ∈ before, ts a < ts b) ∧
      (∀ b ∈ behind, ts a ≤ ts b) ∧ rest = sortByTime ts (before ++ behind) := by
  have hleast : ∀ b ∈ l, ts a ≤ ts b := by
    intro b hb
    have hsorted := inTime_sortByTime ts l
    rw [h] at hsorted
    rw [← (sortByTime_perm ts l).mem_iff, h] at hb
    rcases List.mem_cons.mp hb with rfl | hb
    · exact Int64.le_refl _
    · exact (List.pairwise_cons.mp hsorted).1 b hb
  -- the sort keeps the elements with the timestamp of `a` in their order, so `a` is the first
  have hfirst : atTime ts (ts a) l = a :: atTime ts (ts a) rest := by
    rw [← filter_sortByTime, h, atTime_cons_self rfl]
  obtain ⟨before, behind, rfl, hbefore, -, -⟩ := List.filter_eq_cons_iff.mp hfirst
  have hlater : ∀ b ∈ before, ts a < ts b := by
    intro b hb
    have hne : ts b ≠ ts a := by simpa using hbefore b hb
    have hle := hleast b (List.mem_append_left _ hb)
    exact Int64.lt_of_le_of_ne hle hne.symm
  have hbehind : ∀ b ∈ behind, ts a ≤ ts b := fun b hb =>
    hleast b (List.mem_append_right _ (List.mem_cons_of_mem a hb))
  refine ⟨before, behind, rfl, hlater, hbehind, ?_⟩
  rw [sortByTime_of_first hlater hbehind] at h
  exact (List.cons.inj h).2.symm

lemma map_sortByTime (f : β → α) (l : List β) :
    (sortByTime (ts ∘ f) l).map f = sortByTime ts (l.map f) :=
  List.map_mergeSort fun _ _ _ _ => rfl

end

/-! ### The queue -/

namespace Sorter

/-- Pushing packets puts just these into the queue. -/
lemma queue_foldl_push_perm (ps : List TimedPacket) (s : Sorter) :
    (ps.foldl push s).queue.Perm (s.queue ++ ps) := by
  induction ps generalizing s with
  | nil => rw [List.foldl_nil, List.append_nil]
  | cons p ps ih =>
      obtain ⟨earlier, later, hqueue, hpush, -⟩ := s.queue_push p
      have hone : (s.push p).queue.Perm (s.queue ++ [p]) := by
        rw [hpush, hqueue]
        exact List.perm_middle.trans (List.perm_append_singleton p (earlier ++ later)).symm
      rw [List.foldl_cons, List.append_cons]
      exact (ih (s.push p)).trans (hone.append_right ps)

/-- The packets come in the order of their timestamps. -/
def Sorted (s : Sorter) : Prop := InTime TimedPacket.ts s.queue

lemma sorted_empty : empty.Sorted := List.Pairwise.nil

/-- A packet goes to its place in the stable order. -/
lemma queue_push_eq_sort {s : Sorter} (h : s.Sorted) (p : TimedPacket) :
    (s.push p).queue = sortByTime TimedPacket.ts (s.queue ++ [p]) := by
  obtain ⟨earlier, later, hqueue, hpush, hlater, hlast⟩ := s.queue_push p
  rw [Sorted, hqueue] at h
  obtain ⟨hearlier, hl, hcross⟩ := List.pairwise_append.mp h
  -- the last of the earlier packets is not later than `p`, so none of them is
  have hle : ∀ q ∈ earlier, q.ts ≤ p.ts := by
    intro q hq
    rcases List.eq_nil_or_concat earlier with rfl | ⟨front, last, rfl⟩
    · cases hq
    · have hend : last.ts ≤ p.ts := Int64.not_lt.mp (hlast last (by simp))
      rw [List.concat_eq_append] at hq hearlier
      rcases List.mem_append.mp hq with hq | hq
      · exact Int64.le_trans ((List.pairwise_append.mp hearlier).2.2 q hq last (by simp)) hend
      · rw [List.mem_singleton.mp hq]
        exact hend
  have hnone : atTime TimedPacket.ts p.ts later = [] := by
    rw [List.eq_nil_iff_forall_not_mem]
    intro q hq
    obtain ⟨hq, hts⟩ := mem_atTime.mp hq
    exact Int64.lt_irrefl (hts ▸ hlater q hq)
  rw [hpush, hqueue]
  refine eq_sortByTime ?_ fun t => ?_
  · refine List.pairwise_append.mpr ⟨hearlier, List.pairwise_cons.mpr ⟨?_, hl⟩, ?_⟩
    · exact fun q hq => Int64.le_of_lt (hlater q hq)
    · intro q hq r hr
      rcases List.mem_cons.mp hr with rfl | hr
      · exact hle q hq
      · exact hcross q hq r hr
  · by_cases ht : p.ts = t
    · subst ht
      simp only [atTime_append, atTime_cons_self rfl, hnone, atTime_nil, List.append_nil]
    · simp only [atTime_append, atTime_cons_ne ht, atTime_nil, List.append_nil]

lemma sorted_push {s : Sorter} (h : s.Sorted) (p : TimedPacket) : (s.push p).Sorted := by
  rw [Sorted, queue_push_eq_sort h]
  exact inTime_sortByTime _ _

lemma sorted_foldl_push {s : Sorter} (h : s.Sorted) (ps : List TimedPacket) :
    (ps.foldl push s).Sorted := by
  induction ps generalizing s with
  | nil => exact h
  | cons p ps ih => exact ih (sorted_push h p)

lemma sortByTime_queue {s : Sorter} (h : s.Sorted) :
    sortByTime TimedPacket.ts s.queue = s.queue :=
  (eq_sortByTime h fun _ => rfl).symm

/-- **Pushed packets go to their places in the stable order** of all that wait. -/
theorem queue_foldl_push {s : Sorter} (h : s.Sorted) (ps : List TimedPacket) :
    (ps.foldl push s).queue = sortByTime TimedPacket.ts (s.queue ++ ps) := by
  induction ps generalizing s with
  | nil => rw [List.foldl_nil, List.append_nil, sortByTime_queue h]
  | cons p ps ih =>
      rw [List.foldl_cons, ih (sorted_push h p), queue_push_eq_sort h,
        sortByTime_sortByTime_append, List.append_assoc, List.singleton_append]

end Sorter

end AtomTimeline
