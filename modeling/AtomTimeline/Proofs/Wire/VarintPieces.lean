import Mathlib.Tactic
import AtomTimeline.Wire.Varint

/-!
Runs of varints, cut where their bytes say.

* `Varint.pieces` cuts bytes behind every unmarked one; `Varint.Complete` says of a piece that it is
  a whole varint, `Varint.value` what number it is.
* `Varint.read_of_pieces`: one varint is read if and only if the first piece is complete, and it is
  the number of that piece.
* `Varint.split_eq`: a run can be cut into varints if and only if all its pieces are complete, and
  then the varints are the numbers of the pieces.
-/

namespace AtomTimeline

namespace Varint

/-! ### Pieces -/

/-- The bytes cut behind every unmarked one. What is behind the last of those is a piece as well. -/
def pieces : Bytes → List Bytes
  | [] => []
  | x :: b =>
    if x < 128 then [x] :: pieces b
    else
      match pieces b with
      | [] => [[x]]
      | p :: ps => (x :: p) :: ps

/-- The last byte is unmarked. -/
def Ended (p : Bytes) : Prop := p.getLast?.any (· < 128) = true

instance (p : Bytes) : Decidable (Ended p) := inferInstanceAs (Decidable (_ = true))

/-- A whole varint: at most ten bytes, of which the last and no other is unmarked. -/
structure Complete (p : Bytes) : Prop where
  length_le : p.length ≤ 10
  marked : ∀ x ∈ p.dropLast, ¬ x < 128
  ended : Ended p

instance (p : Bytes) : Decidable (Complete p) :=
  -- the bytes of the piece are looked at, not all bytes there are
  have : Decidable (∀ x ∈ p.dropLast, ¬ x < 128) := List.decidableBAll _ _
  decidable_of_iff (p.length ≤ 10 ∧ (∀ x ∈ p.dropLast, ¬ x < 128) ∧ Ended p)
    ⟨fun h => ⟨h.1, h.2.1, h.2.2⟩, fun h => ⟨h.length_le, h.marked, h.ended⟩⟩

/-- The number whose digits in base 128 are the low seven bits of the bytes, lowest digit first. -/
def groupSum : Bytes → ℕ
  | [] => 0
  | x :: p => x.toNat % 128 + 128 * groupSum p

/-- The number of a piece, of which a word keeps the low 64 bits. -/
def value (p : Bytes) : UInt64 := UInt64.ofNat (groupSum p)

lemma pieces_unmarked {x : UInt8} (h : x < 128) (b : Bytes) :
    pieces (x :: b) = [x] :: pieces b := by
  rw [pieces, if_pos h]

lemma pieces_marked_last {x : UInt8} (h : ¬ x < 128) : pieces [x] = [[x]] := by
  rw [pieces, if_neg h, pieces]

lemma pieces_marked {x : UInt8} (h : ¬ x < 128) {b p : Bytes} {ps : List Bytes}
    (hb : pieces b = p :: ps) : pieces (x :: b) = (x :: p) :: ps := by
  rw [pieces, if_neg h, hb]

/-- The induction along the pieces: no bytes, an unmarked one, a marked one that is the last, or a
marked one in front of a piece. -/
theorem pieces_induction {P : Bytes → Prop} (nil : P [])
    (unmarked : ∀ x b, x < 128 → P b → P (x :: b)) (last : ∀ x, ¬ x < 128 → P [x])
    (marked : ∀ x b p ps, ¬ x < 128 → pieces b = p :: ps → P b → P (x :: b)) (b : Bytes) : P b := by
  induction b with
  | nil => exact nil
  | cons x b ih =>
      by_cases hx : x < 128
      · exact unmarked x b hx ih
      · cases hb : pieces b with
        | cons p ps => exact marked x b p ps hx hb ih
        | nil =>
            cases b with
            | nil => exact last x hx
            | cons y b =>
                rw [pieces] at hb
                split at hb
                · cases hb
                · split at hb <;> cases hb

/-- The pieces are all there is. -/
lemma flatten_pieces (b : Bytes) : (pieces b).flatten = b := by
  induction b using pieces_induction with
  | nil => rfl
  | unmarked x b hx ih => rw [pieces_unmarked hx, List.flatten_cons, ih, List.singleton_append]
  | last x hx => rw [pieces_marked_last hx, List.flatten_singleton]
  | marked x b p ps hx hb ih =>
      rw [hb, List.flatten_cons] at ih
      rw [pieces_marked hx hb, List.flatten_cons, List.cons_append, ih]

/-- No piece is empty, and only the last byte of one can be unmarked. -/
lemma marked_of_mem_pieces {b p : Bytes} (h : p ∈ pieces b) :
    p ≠ [] ∧ ∀ x ∈ p.dropLast, ¬ x < 128 := by
  induction b using pieces_induction generalizing p with
  | nil => cases h
  | unmarked x b hx ih =>
      rw [pieces_unmarked hx, List.mem_cons] at h
      rcases h with rfl | h
      · exact ⟨List.cons_ne_nil x [], by simp⟩
      · exact ih h
  | last x hx =>
      rw [pieces_marked_last hx, List.mem_singleton] at h
      subst h
      exact ⟨List.cons_ne_nil x [], by simp⟩
  | marked x b q qs hx hb ih =>
      rw [pieces_marked hx hb, List.mem_cons] at h
      rcases h with rfl | h
      · obtain ⟨hne, hmarked⟩ := ih (p := q) (hb ▸ List.mem_cons_self)
        refine ⟨List.cons_ne_nil x q, fun y hy => ?_⟩
        rw [List.dropLast_cons_of_ne_nil hne, List.mem_cons] at hy
        rcases hy with rfl | hy
        · exact hx
        · exact hmarked y hy
      · exact ih (hb ▸ List.mem_cons_of_mem q h)

lemma complete_of_mem_pieces {b p : Bytes} (h : p ∈ pieces b) :
    Complete p ↔ p.length ≤ 10 ∧ Ended p :=
  ⟨fun hp => ⟨hp.length_le, hp.ended⟩, fun hp => ⟨hp.1, (marked_of_mem_pieces h).2, hp.2⟩⟩

/-! ### Reading -/

lemma ended_cons {x : UInt8} {p : Bytes} (hne : p ≠ []) : Ended (x :: p) ↔ Ended p := by
  obtain ⟨y, p, rfl⟩ := List.exists_cons_of_ne_nil hne
  rw [Ended, Ended, List.getLast?_cons_cons]

/-- As many groups are read as are in the first piece, if it ends and is no longer than allowed. -/
lemma readGroups_of_pieces {b p : Bytes} {ps : List Bytes} (h : pieces b = p :: ps) (limit : ℕ) :
    if p.length ≤ limit ∧ Ended p then readGroups limit b = .ok (groupSum p, ps.flatten)
    else ∃ fault, readGroups limit b = .error fault := by
  induction b using pieces_induction generalizing p ps limit with
  | nil => cases h
  | unmarked x b hx ih =>
      rw [pieces_unmarked hx, List.cons.injEq] at h
      obtain ⟨rfl, rfl⟩ := h
      cases limit with
      | zero => exact ⟨_, rfl⟩
      | succ limit =>
          have hvalue : x.toNat % 128 = x.toNat :=
            Nat.mod_eq_of_lt (by simpa [UInt8.lt_iff_toNat_lt] using hx)
          rw [if_pos ⟨by simp, by simpa [Ended] using hx⟩, readGroups, if_pos hx, flatten_pieces,
            groupSum, groupSum, hvalue, Nat.mul_zero, Nat.add_zero]
  | last x hx =>
      rw [pieces_marked_last hx, List.cons.injEq] at h
      obtain ⟨rfl, rfl⟩ := h
      rw [if_neg fun hp => hx (by simpa [Ended] using hp.2)]
      cases limit with
      | zero => exact ⟨_, rfl⟩
      | succ limit =>
          rw [readGroups, if_neg hx]
          cases limit <;> exact ⟨_, rfl⟩
  | marked x b q qs hx hb ih =>
      rw [pieces_marked hx hb, List.cons.injEq] at h
      obtain ⟨rfl, rfl⟩ := h
      have hne : q ≠ [] := (marked_of_mem_pieces (hb ▸ List.mem_cons_self)).1
      cases limit with
      | zero => exact ⟨_, rfl⟩
      | succ limit =>
          have hrest := ih hb limit
          have hiff : (x :: q).length ≤ limit + 1 ∧ Ended (x :: q) ↔
              q.length ≤ limit ∧ Ended q := by
            rw [ended_cons hne, List.length_cons, Nat.add_le_add_iff_right]
          simp only [hiff]
          rw [readGroups, if_neg hx]
          split at hrest
          · next hq => rw [if_pos hq, hrest, groupSum]
          · next hq =>
            obtain ⟨fault, hfault⟩ := hrest
            rw [if_neg hq, hfault]
            exact ⟨fault, rfl⟩

/-- **One varint** is read if and only if the first piece is complete. It is the number of that
piece, and the other pieces are left. -/
theorem read_of_pieces {b p : Bytes} {ps : List Bytes} (h : pieces b = p :: ps) :
    if Complete p then read b = .ok (value p, ps.flatten) else ∃ fault, read b = .error fault := by
  have hread := readGroups_of_pieces h maxLength
  have hmem : p ∈ pieces b := h ▸ List.mem_cons_self
  simp only [← show maxLength = 10 from rfl, complete_of_mem_pieces hmem]
  split at hread
  · next hp => rw [if_pos hp, read, hread, value]
  · next hp =>
    obtain ⟨fault, hfault⟩ := hread
    rw [if_neg hp, read, hfault]
    exact ⟨fault, rfl⟩

/-- Behind a piece that ended the pieces are as they were. -/
lemma pieces_flatten_tail {b p : Bytes} {ps : List Bytes} (h : pieces b = p :: ps) (hp : Ended p) :
    pieces ps.flatten = ps := by
  induction b using pieces_induction generalizing p ps with
  | nil => cases h
  | unmarked x b hx ih =>
      rw [pieces_unmarked hx, List.cons.injEq] at h
      rw [← h.2, flatten_pieces]
  | last x hx =>
      rw [pieces_marked_last hx, List.cons.injEq] at h
      rw [← h.2]
      rfl
  | marked x b q qs hx hb ih =>
      rw [pieces_marked hx hb, List.cons.injEq] at h
      obtain ⟨rfl, rfl⟩ := h
      have hne : q ≠ [] := (marked_of_mem_pieces (hb ▸ List.mem_cons_self)).1
      exact ih hb ((ended_cons hne).mp hp)

/-- A run that begins with a varint is cut behind it. -/
lemma split_of_read {b rest : Bytes} {v : UInt64} (h : read b = .ok (v, rest)) :
    split b = (split rest).map (v :: ·) := by
  cases b with
  | nil => simp [read, readGroups, maxLength] at h
  | cons x b =>
      rw [split]
      split
      · next hr =>
        rw [h] at hr
        cases hr
      · next hr =>
        rw [h] at hr
        cases hr
        cases split rest <;> rfl

/-- A run that does not begin with a varint cannot be cut. -/
lemma split_of_read_error {b : Bytes} (hb : b ≠ []) {fault : Fault × Bytes}
    (h : read b = .error fault) : split b = .error b := by
  obtain ⟨x, b, rfl⟩ := List.exists_cons_of_ne_nil hb
  rw [split]
  split
  · rfl
  · next hr =>
    rw [h] at hr
    cases hr

lemma toOption_split_of_read {b rest : Bytes} {v : UInt64} (h : read b = .ok (v, rest)) :
    (split b).toOption = (split rest).toOption.map (v :: ·) := by
  rw [split_of_read h]
  cases split rest <;> rfl

/-- **A run is cut into varints** if and only if all its pieces are complete. The varints are their
numbers. -/
theorem split_eq (b : Bytes) :
    (split b).toOption =
      if ∀ p ∈ pieces b, Complete p then some ((pieces b).map value) else none := by
  induction hn : b.length using Nat.strong_induction_on generalizing b with
  | _ n ih =>
      cases hb : pieces b with
      | nil =>
          have hnil : b = [] := by rw [← flatten_pieces b, hb, List.flatten_nil]
          subst hnil
          simp [split, Except.toOption]
      | cons p ps =>
          have hread := read_of_pieces hb
          split at hread
          · next hp =>
            have hrest := ih _ (hn ▸ length_lt_of_read hread) ps.flatten rfl
            rw [pieces_flatten_tail hb hp.ended] at hrest
            rw [toOption_split_of_read hread, hrest]
            by_cases hps : ∀ q ∈ ps, Complete q <;> simp [hp, hps]
          · next hp =>
            obtain ⟨fault, hfault⟩ := hread
            have hne : b ≠ [] := by
              rintro rfl
              cases hb
            rw [split_of_read_error hne hfault, if_neg fun hall => hp (hall p List.mem_cons_self)]
            rfl

end Varint

end AtomTimeline
