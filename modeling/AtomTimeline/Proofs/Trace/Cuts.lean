import AtomTimeline.Proofs.Trace.Fields

/-!
Traces that are cut off.

* `Trace.Boundary`: a place between two fields of a trace, or at one of its ends.
* `SpelledTrace.cut`: a trace is cut at such a place, or within a field. It cannot be both, since a
  field that is cut off makes an error.
* `Source.packets_take`: a stream reads what is in front of the cut, and ends there without error
  just if it is at such a place.
-/

namespace AtomTimeline

/-- The first `n` bytes of a trace are fields of it, one after the other, and so are the others. -/
def Trace.Boundary (t : Bytes) (n : ℕ) : Prop :=
  (∃ front, SpelledTrace front (t.take n)) ∧ ∃ back, SpelledTrace back (t.drop n)

/-- The first `n` bytes of a trace are the fields in `front` and a part of one more field. -/
def Trace.CutWithin (front : List TraceField) (f : TraceField) (t : Bytes) (n : ℕ) : Prop :=
  ∃ whole stop more, t.take n = whole ++ stop ∧ SpelledTrace front whole ∧
    f.SpelledBy (stop ++ more) ∧ stop ≠ [] ∧ more ≠ []

variable {fs front : List TraceField} {f : TraceField} {t part : Bytes}

lemma Trace.CutWithin.cons (hpart : f.SpelledBy part) {g : TraceField} {n : ℕ}
    (h : CutWithin front g t n) : CutWithin (f :: front) g (part ++ t) (part.length + n) := by
  obtain ⟨whole, stop, more, htake, hwhole, hcut, hstop, hmore⟩ := h
  refine ⟨part ++ whole, stop, more, ?_, .cons hpart hwhole, hcut, hstop, hmore⟩
  rw [List.take_length_add_append, htake, List.append_assoc]

/-- **A trace is cut** between two of its fields, or within one. -/
theorem SpelledTrace.cut (h : SpelledTrace fs t) (n : ℕ) :
    (∃ front back, fs = front ++ back ∧ SpelledTrace front (t.take n) ∧
      SpelledTrace back (t.drop n)) ∨
    ∃ front f back, fs = front ++ f :: back ∧ Trace.CutWithin front f t n := by
  obtain ⟨parts, rfl, hparts⟩ := h
  induction hparts generalizing n with
  | nil =>
      refine .inl ⟨[], [], rfl, ?_, ?_⟩
      · rw [List.flatten_nil, List.take_nil]
        exact spelledTrace_nil
      · rw [List.flatten_nil, List.drop_nil]
        exact spelledTrace_nil
  | @cons f part fs parts hpart hrest ih =>
      rw [List.flatten_cons]
      by_cases hzero : n = 0
      · subst hzero
        exact .inl ⟨[], f :: fs, rfl, spelledTrace_nil, .cons hpart ⟨parts, rfl, hrest⟩⟩
      by_cases hwithin : n < part.length
      · refine .inr ⟨[], f, fs, rfl, [], part.take n, part.drop n, ?_, spelledTrace_nil, ?_, ?_, ?_⟩
        · rw [List.take_append_of_le_length hwithin.le, List.nil_append]
        · rwa [List.take_append_drop]
        · simpa [List.take_eq_nil_iff, hzero] using hpart.ne_nil
        · simpa [List.drop_eq_nil_iff] using hwithin
      · -- the cut is behind the first field
        obtain ⟨m, rfl⟩ := Nat.exists_eq_add_of_le (Nat.le_of_not_lt hwithin)
        rcases ih m with ⟨front, back, rfl, hfront, hback⟩ | ⟨front, g, back, rfl, hcut⟩
        · refine .inl ⟨f :: front, back, rfl, ?_, ?_⟩
          · rw [List.take_length_add_append]
            exact .cons hpart hfront
          · rwa [List.drop_length_add_append]
        · exact .inr ⟨f :: front, g, back, rfl, hcut.cons hpart⟩

/-- Cut within a field, a trace ends with an error behind the fields in front of that. -/
lemma Trace.CutWithin.exists_error {n : ℕ} (h : CutWithin front f t n) :
    ∃ e, (Source.ofBytes (t.take n)).packets = (front.filterMap TraceField.packet?, some e) := by
  obtain ⟨whole, stop, more, htake, hwhole, hspelled, hstop, hmore⟩ := h
  obtain ⟨e, he⟩ := Source.exists_error_of_cut hspelled hstop hmore
  refine ⟨e, ?_⟩
  rw [htake, Source.packets_of_fields hwhole, Source.packets_of_error he, List.append_nil]

/-- Up to a place between two fields, a trace is read without error. -/
lemma Trace.Boundary.packets_eq {n : ℕ} (h : Boundary t n) :
    (Source.ofBytes (t.take n)).packets.2 = none := by
  obtain ⟨⟨front, hfront⟩, -⟩ := h
  rw [Source.packets_of_spelledTrace hfront]

/-- **Of a trace that is cut off** a stream hands out the packets of the fields in front of the cut,
and then an error just if the cut is within a field. -/
theorem Source.packets_take (h : SpelledTrace fs t) (n : ℕ) :
    ∃ front back, fs = front ++ back ∧
      (ofBytes (t.take n)).packets.1 = front.filterMap TraceField.packet? ∧
      ((ofBytes (t.take n)).packets.2 = none ↔ Trace.Boundary t n) := by
  rcases h.cut n with ⟨front, back, rfl, hfront, hback⟩ | ⟨front, f, back, rfl, hcut⟩
  · rw [packets_of_spelledTrace hfront]
    exact ⟨front, back, rfl, rfl, iff_of_true rfl ⟨⟨front, hfront⟩, ⟨back, hback⟩⟩⟩
  · obtain ⟨e, he⟩ := hcut.exists_error
    refine ⟨front, f :: back, rfl, by rw [he], ⟨fun hnone => ?_, Trace.Boundary.packets_eq⟩⟩
    rw [he] at hnone
    cases hnone

end AtomTimeline
