import Mathlib.Tactic

/-!
Lists without repetitions, in the order of first appearance.

* `pairwise_eraseDups`: what is left of a list without its repetitions stands in the order of first
  appearance.
* `eraseDups_append_singleton`: an element behind others is listed behind them if it is not there
  yet. `idxOf_eraseDups_append`: so it keeps its place, whatever follows.
-/

namespace AtomTimeline

variable {α : Type} [BEq α] [LawfulBEq α]

lemma idxOf_lt_of_filter {p : α → Bool} {a b : α} (ha : p a = true) (hb : p b = true)
    {l : List α} (h : (l.filter p).idxOf a < (l.filter p).idxOf b) : l.idxOf a < l.idxOf b := by
  induction l with
  | nil => exact absurd h (Nat.lt_irrefl _)
  | cons c l ih =>
      by_cases hc : p c = true
      · rw [List.filter_cons_of_pos hc, List.idxOf_cons, List.idxOf_cons] at h
        rw [List.idxOf_cons, List.idxOf_cons]
        cases hca : c == a <;> cases hcb : c == b <;> simp_all
      · have hca : (c == a) = false := beq_eq_false_iff_ne.mpr fun heq => hc (heq ▸ ha)
        have hcb : (c == b) = false := beq_eq_false_iff_ne.mpr fun heq => hc (heq ▸ hb)
        rw [List.filter_cons_of_neg hc] at h
        rw [List.idxOf_cons, List.idxOf_cons, hca, hcb]
        exact Nat.succ_lt_succ (ih h)

/-- Without repetitions, what appears first comes first. -/
lemma pairwise_eraseDups (l : List α) :
    l.eraseDups.Pairwise fun a b => l.idxOf a < l.idxOf b := by
  induction hlength : l.length using Nat.strong_induction_on generalizing l with
  | _ n ih =>
      cases l with
      | nil => simp
      | cons c l =>
          have hshort : (l.filter fun b => !b == c).length < n := by
            have hle := List.length_filter_le (fun b => !b == c) l
            rw [← hlength, List.length_cons]
            omega
          have hne : ∀ b ∈ (l.filter fun b => !b == c).eraseDups, c ≠ b := by
            rintro b hb rfl
            simp [List.mem_eraseDups] at hb
          rw [List.eraseDups_cons, List.pairwise_cons]
          refine ⟨fun b hb => ?_, (ih _ hshort _ rfl).imp_of_mem fun {a b} ha hb hlt => ?_⟩
          · rw [List.idxOf_cons_self, List.idxOf_cons_ne _ (hne b hb)]
            exact Nat.succ_pos _
          · rw [List.idxOf_cons_ne _ (hne a ha), List.idxOf_cons_ne _ (hne b hb)]
            exact Nat.succ_lt_succ (idxOf_lt_of_filter (p := fun b => !b == c)
              (List.mem_filter.mp (List.mem_eraseDups.mp ha)).2
              (List.mem_filter.mp (List.mem_eraseDups.mp hb)).2 hlt)

/-- An element behind others is listed behind them if it is not there yet. -/
lemma eraseDups_append_singleton (l : List α) (a : α) :
    (l ++ [a]).eraseDups = if l.eraseDups.contains a then l.eraseDups else l.eraseDups ++ [a] := by
  rw [List.eraseDups_append]
  by_cases h : a ∈ l <;> simp [List.removeAll, List.mem_eraseDups, List.eraseDups_cons, h]

lemma eraseDups_sublist (l : List α) : l.eraseDups.Sublist l := by
  induction l using List.reverseRecOn with
  | nil => exact List.Sublist.slnil
  | append_singleton l a ih =>
      rw [eraseDups_append_singleton]
      split
      · exact ih.trans (List.sublist_append_left l [a])
      · exact ih.append_right [a]

/-- What is listed keeps its place, whatever follows. -/
lemma idxOf_eraseDups_append {l : List α} {a : α} (h : a ∈ l) (more : List α) :
    (l ++ more).eraseDups.idxOf a = l.eraseDups.idxOf a := by
  rw [List.eraseDups_append, List.idxOf_append_of_mem (List.mem_eraseDups.mpr h)]

end AtomTimeline
