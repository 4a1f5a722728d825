import AtomTimeline.Proofs.Wire.Grammar

/-!
Readers that are asked again and again.

* `Yields next s items last`: asked from the state `s` on, `next` hands out these items and then
  nothing, and is in the state `last` then. `asked next s n` is the state after `n` calls.
* `Reader.yields_scan`: a reader of fields hands out what a scan finds.
  `Reader.exists_yields_of_spelled`, `Reader.spelled_of_yields`: what is handed out before a clean
  end is what the bytes spell.
* `Reader.yields_clean_iff_spelled`: it hands out fields and ends cleanly if and only if the bytes
  are spellings of them. It always comes to an end, never leaves the bytes, and is silent from then
  on.
-/

namespace AtomTimeline

/-! ### Asking for the next item -/

section

variable {σ α : Type}

/-- Asked until it hands out nothing, `next` hands out these items. -/
inductive Yields (next : σ → Option α × σ) : σ → List α → σ → Prop where
  | done {s last : σ} : next s = (none, last) → Yields next s [] last
  | item {s mid last : σ} {a : α} {items : List α} :
    next s = (some a, mid) → Yields next mid items last → Yields next s (a :: items) last

/-- The state after a number of calls. -/
def asked (next : σ → Option α × σ) (s : σ) (calls : ℕ) : σ := (fun s => (next s).2)^[calls] s

variable {next : σ → Option α × σ} {s last : σ} {items : List α}

/-- What is handed out is determined by the state. -/
lemma Yields.unique (h : Yields next s items last) {others : List α} {last' : σ}
    (h' : Yields next s others last') : items = others ∧ last = last' := by
  induction h generalizing others with
  | done hs =>
      cases h' with
      | done hs' =>
          rw [hs] at hs'
          cases hs'
          exact ⟨rfl, rfl⟩
      | item hs' _ =>
          rw [hs] at hs'
          cases hs'
  | item hs _ ih =>
      cases h' with
      | done hs' =>
          rw [hs] at hs'
          cases hs'
      | item hs' hrest =>
          rw [hs] at hs'
          cases hs'
          obtain ⟨rfl, rfl⟩ := ih hrest
          exact ⟨rfl, rfl⟩

lemma asked_succ (next : σ → Option α × σ) (s : σ) (calls : ℕ) :
    asked next s (calls + 1) = (next (asked next s calls)).2 :=
  Function.iterate_succ_apply' _ calls s

lemma asked_succ_of_next {a : α} {mid : σ} (h : next s = (some a, mid)) (calls : ℕ) :
    asked next s (calls + 1) = asked next mid calls := by
  rw [asked, Function.iterate_succ_apply, h, asked]

/-- Who hands out nothing once, and nothing right after it, is silent from then on. -/
lemma silent_of_step (hstep : ∀ s, (next s).1 = none → (next (next s).2).1 = none) {n : ℕ}
    (h : (next (asked next s n)).1 = none) {m : ℕ} (hnm : n ≤ m) :
    (next (asked next s m)).1 = none := by
  induction m, hnm using Nat.le_induction with
  | base => exact h
  | succ m _ ih =>
      rw [asked_succ]
      exact hstep _ ih

/-- After the last item there is silence. -/
lemma Yields.silent (h : Yields next s items last)
    (hstep : ∀ s, (next s).1 = none → (next (next s).2).1 = none) (n : ℕ) :
    (next (asked next last n)).1 = none := by
  induction h with
  | @done s last hs =>
      have hlast : (next last).1 = none := by
        have hnext := hstep s (by rw [hs])
        rwa [hs] at hnext
      exact silent_of_step hstep (n := 0) hlast (Nat.zero_le n)
  | item _ _ ih => exact ih

end

/-! ### Readers of fields -/

namespace Reader

lemma next_of_nil : (ofBytes []).next = (none, ofBytes []) := rfl

lemma next_of_read {b rest : Bytes} {f : Field} (h : Field.read b = .ok (f, rest)) :
    (ofBytes b).next = (some f, ofBytes rest) := by
  have hb := Field.ne_nil_of_read h
  simp only [next, ofBytes, List.isEmpty_eq_false_iff.mpr hb, Bool.or_self, Bool.false_eq_true,
    if_false, h]

lemma next_of_read_error {b left : Bytes} (hb : b ≠ []) (h : Field.read b = .error left) :
    (ofBytes b).next = (none, ⟨left, true⟩) := by
  simp only [next, ofBytes, List.isEmpty_eq_false_iff.mpr hb, Bool.or_self, Bool.false_eq_true,
    if_false, h]

/-- A reader hands out the fields of a scan. It ends as the scan does. -/
theorem yields_scan (b : Bytes) :
    Yields next (ofBytes b) (scan b).fields
      ⟨(scan b).unread.getD [], (scan b).malformed⟩ := by
  induction b using scan_induction with
  | nil =>
      rw [scan_nil]
      exact .done next_of_nil
  | field b rest f hr ih =>
      rw [scan_of_read hr]
      exact .item (next_of_read hr) ih
  | fault b left hb hr =>
      rw [scan_of_read_error hb hr]
      exact .done (next_of_read_error hb hr)

/-- A reader comes to a clean end of the spellings of fields, and hands out the fields. -/
lemma exists_yields_of_spelled {fs : List Field} {b : Bytes} (h : SpelledFields fs b) :
    ∃ last, Yields next (ofBytes b) fs last ∧ last.malformed = false := by
  have hyields := yields_scan b
  rw [scan_eq_clean_iff.mpr h] at hyields
  exact ⟨_, hyields, rfl⟩

/-- What a reader hands out before a clean end is spelled by the bytes. -/
lemma spelled_of_yields {fs : List Field} {b : Bytes} {last : Reader}
    (h : Yields next (ofBytes b) fs last)
    (hclean : last.malformed = false) : SpelledFields fs b := by
  obtain ⟨rfl, rfl⟩ := (yields_scan b).unique h
  have hunread : (scan b).unread = none := by simpa [Scan.malformed] using hclean
  exact scan_eq_clean_iff.mp (by rw [← hunread])

/-- A reader that handed out nothing does so again. -/
lemma next_next_of_none (r : Reader) (h : r.next.1 = none) : r.next.2.next.1 = none := by
  by_cases hend : (r.malformed || r.rest.isEmpty) = true
  · have hnext : r.next = (none, r) := by rw [next, if_pos hend]
    rwa [hnext]
  · cases hr : Field.read r.rest with
    | ok found =>
        have hnext : r.next = (some found.1, ⟨found.2, false⟩) := by rw [next, if_neg hend, hr]
        rw [hnext] at h
        cases h
    | error left =>
        have hnext : r.next = (none, ⟨left, true⟩) := by rw [next, if_neg hend, hr]
        rw [hnext]
        rfl

/-- What a call leaves is a tail of what was there. -/
lemma suffix_next (r : Reader) : r.next.2.rest <:+ r.rest := by
  rw [next]
  split
  · exact List.suffix_refl _
  · split
    · next hr => exact Field.suffix_of_read hr
    · next hr => exact Field.suffix_of_read_error hr

lemma suffix_asked (r : Reader) (calls : ℕ) : (asked next r calls).rest <:+ r.rest := by
  induction calls with
  | zero => exact List.suffix_refl _
  | succ calls ih =>
      rw [asked_succ]
      exact (suffix_next _).trans ih

/-- **Just the grammar is accepted.** Asked again and again, a reader hands out these fields and
ends without having met a malformed one if and only if the bytes are spellings of them, one after
the other. Whatever the bytes are, it comes to an end, what it has not read is always a tail of
them, and once it handed out nothing it never hands out a field again. -/
theorem yields_clean_iff_spelled (b : Bytes) :
    (∀ fs, (∃ last, Yields next (ofBytes b) fs last ∧ last.malformed = false) ↔
      SpelledFields fs b) ∧
    (∃ fs last, Yields next (ofBytes b) fs last) ∧
    (∀ n, (asked next (ofBytes b) n).rest <:+ b) ∧
    ∀ n, (asked next (ofBytes b) n).next.1 = none →
      ∀ m, n ≤ m → (asked next (ofBytes b) m).next.1 = none := by
  refine ⟨fun fs => ?_, ⟨_, _, yields_scan b⟩, suffix_asked (ofBytes b), ?_⟩
  · rw [← scan_eq_clean_iff]
    constructor
    · rintro ⟨last, hyields, hclean⟩
      obtain ⟨rfl, rfl⟩ := (yields_scan b).unique hyields
      have hunread : (scan b).unread = none := by simpa [Scan.malformed] using hclean
      rw [← hunread]
    · intro hscan
      have hyields := yields_scan b
      rw [hscan] at hyields
      exact ⟨_, hyields, rfl⟩
  · intro n hnone m hnm
    exact silent_of_step next_next_of_none hnone hnm

end Reader

end AtomTimeline
