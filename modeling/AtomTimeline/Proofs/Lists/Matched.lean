import Mathlib.Tactic

/-!
Lists matched member by member.

* `exists_counterpart`: a member of one list has its counterpart in the other.
* `exists_blocks`: a list that is matched with lists strung together falls into blocks, each matched
  with one of these.
-/

namespace AtomTimeline

variable {α β γ : Type} {R : α → β → Prop}

/-- What is matched has a counterpart. -/
lemma exists_counterpart {l : List α} {m : List β} (h : List.Forall₂ R l m) {a : α} (ha : a ∈ l) :
    ∃ b ∈ m, R a b := by
  induction h with
  | nil => cases ha
  | @cons x y l m hxy _ ih =>
      rcases List.mem_cons.mp ha with rfl | ha
      · exact ⟨y, List.mem_cons_self, hxy⟩
      · obtain ⟨b, hb, hab⟩ := ih ha
        exact ⟨b, List.mem_cons_of_mem y hb, hab⟩

/-- A list matched with what the elements of a list give, one after the other, falls into blocks,
one for each element. -/
lemma exists_blocks {f : γ → List β} {l : List α} {cs : List γ}
    (h : List.Forall₂ R l (cs.flatMap f)) :
    ∃ blocks : List (List α), l = blocks.flatten ∧
      List.Forall₂ (fun block c => List.Forall₂ R block (f c)) blocks cs := by
  induction cs generalizing l with
  | nil => exact ⟨[], List.forall₂_nil_right_iff.mp h, .nil⟩
  | cons c cs ih =>
      rw [List.flatMap_cons] at h
      have hfirst := List.forall₂_take_append l (f c) (cs.flatMap f) h
      obtain ⟨blocks, hblocks, hmatched⟩ := ih (List.forall₂_drop_append l (f c) (cs.flatMap f) h)
      refine ⟨l.take (f c).length :: blocks, ?_, .cons hfirst hmatched⟩
      rw [List.flatten_cons, ← hblocks, List.take_append_drop]

end AtomTimeline
