import AtomTimeline.Proofs.Args.RoundTrip

/-!
Keys as texts, where names are identifiers.

* `PositionsRemoved` says of two texts that the second is the first with every position in brackets
  removed; `Key.positionsRemoved_ofPath`: so is the flat key got from the full one.
* `KeyStep.eq_of_indexed_eq`: a step on the way to a value can be read back from its text.
* `Key.eq_of_full_eq`: so can a whole way from the full key, because no step has a dot in its text.
-/

namespace AtomTimeline

/-- A name that is not empty and has none of the characters that keys are put together with. -/
structure Identifier (name : String) : Prop where
  ne_empty : name ≠ ""
  plain : ∀ c ∈ name.toList, c ≠ '.' ∧ c ≠ '[' ∧ c ≠ ']'

instance (name : String) : Decidable (Identifier name) :=
  -- the characters of the name are looked at, not all characters there are
  have : Decidable (∀ c ∈ name.toList, c ≠ '.' ∧ c ≠ '[' ∧ c ≠ ']') := List.decidableBAll _ _
  decidable_of_iff (name ≠ "" ∧ ∀ c ∈ name.toList, c ≠ '.' ∧ c ≠ '[' ∧ c ≠ ']')
    ⟨fun h => ⟨h.1, h.2⟩, fun h => ⟨h.ne_empty, h.plain⟩⟩

/-- The names on the way are identifiers. -/
def IdentifierPath (path : List KeyStep) : Prop := ∀ step ∈ path, Identifier step.name

lemma IdentifierPath.nil : IdentifierPath [] := List.forall_mem_nil _

lemma IdentifierPath.singleton {step : KeyStep} (h : Identifier step.name) :
    IdentifierPath [step] := by
  intro other hother
  rw [List.mem_singleton.mp hother]
  exact h

lemma IdentifierPath.append {p q : List KeyStep} (hp : IdentifierPath p) (hq : IdentifierPath q) :
    IdentifierPath (p ++ q) := by
  intro step hstep
  rcases List.mem_append.mp hstep with hstep | hstep
  · exact hp step hstep
  · exact hq step hstep

lemma IdentifierPath.name_ne_empty {path : List KeyStep} (h : IdentifierPath path) :
    ∀ step ∈ path, step.name ≠ "" := fun step hstep => (h step hstep).ne_empty

/-! ### One step -/

namespace KeyStep

/-- The position in a step as it is written. -/
def positionText (step : KeyStep) : List Char :=
  match step.position with
  | none => []
  | some n => '[' :: ((toString n).toList ++ [']'])

lemma toList_indexed (step : KeyStep) :
    step.indexed.toList = step.name.toList ++ step.positionText := by
  cases hposition : step.position <;> simp [indexed, positionText, hposition]

/-- The digits of a number are not the characters that keys are put together with. -/
lemma plain_of_mem_toString {n : ℕ} {c : Char} (h : c ∈ (toString n).toList) :
    c ≠ '.' ∧ c ≠ '[' ∧ c ≠ ']' := by
  have hdigits : (toString n).toList = Nat.toDigits 10 n := Nat.toList_repr
  have hdigit : c.isDigit = true := by
    rw [hdigits] at h
    exact Nat.isDigit_of_mem_toDigits (by decide) (by decide) h
  refine ⟨?_, ?_, ?_⟩ <;>
  · rintro rfl
    exact absurd hdigit (by decide)

/-- The text of a step has no dot in it. -/
lemma dot_notMem_indexed {step : KeyStep} (h : Identifier step.name) :
    '.' ∉ step.indexed.toList := by
  intro hdot
  rw [toList_indexed, List.mem_append] at hdot
  rcases hdot with hdot | hdot
  · exact (h.plain _ hdot).1 rfl
  · cases hposition : step.position with
    | none => simp [positionText, hposition] at hdot
    | some n =>
        simp only [positionText, hposition, List.mem_cons, List.mem_append] at hdot
        rcases hdot with hdot | hdot | hdot | hdot
        · exact absurd hdot (by decide)
        · exact (plain_of_mem_toString hdot).1 rfl
        · exact absurd hdot (by decide)
        · cases hdot

lemma indexed_ne_empty {step : KeyStep} (h : Identifier step.name) : step.indexed ≠ "" := by
  intro hempty
  have htext := congrArg String.toList hempty
  simp only [toList_indexed, String.toList_empty, List.append_eq_nil_iff] at htext
  exact h.ne_empty (String.toList_eq_nil_iff.mp htext.1)

/-- The name is what is in front of the first bracket. -/
lemma takeWhile_indexed {step : KeyStep} (h : Identifier step.name) :
    step.indexed.toList.takeWhile (· ≠ '[') = step.name.toList := by
  have hname : ∀ c ∈ step.name.toList, decide (c ≠ '[') = true := by
    intro c hc
    simpa using (h.plain c hc).2.1
  rw [toList_indexed, List.takeWhile_append_of_pos hname]
  cases hposition : step.position <;> simp [positionText, hposition]

/-- A position can be read back from its text. -/
lemma eq_of_positionText_eq {s t : KeyStep} (h : s.positionText = t.positionText) :
    s.position = t.position := by
  cases hs : s.position <;> cases ht : t.position
  case none.none => rfl
  case some.some m n =>
    have hdigits : Nat.toDigits 10 m = Nat.toDigits 10 n := by
      simpa [positionText, hs, ht] using h
    have hnumber : m = n := by
      calc m = Nat.ofDigitChars 10 (Nat.toDigits 10 m) 0 := Nat.ofDigitChars_ten_toDigits.symm
        _ = Nat.ofDigitChars 10 (Nat.toDigits 10 n) 0 := by rw [hdigits]
        _ = n := Nat.ofDigitChars_ten_toDigits
    rw [hnumber]
  all_goals simp [positionText, hs, ht] at h

/-- **A step can be read back** from its text. -/
theorem eq_of_indexed_eq {s t : KeyStep} (hs : Identifier s.name) (ht : Identifier t.name)
    (h : s.indexed = t.indexed) : s = t := by
  have hname : s.name.toList = t.name.toList := by
    rw [← takeWhile_indexed hs, h, takeWhile_indexed ht]
  have htext : s.positionText = t.positionText := by
    have hall := congrArg String.toList h
    rwa [toList_indexed, toList_indexed, hname, List.append_cancel_left_eq] at hall
  have hposition := eq_of_positionText_eq htext
  obtain ⟨name, position⟩ := s
  obtain ⟨name', position'⟩ := t
  exact congrArg₂ KeyStep.mk (String.toList_inj.mp hname) hposition

lemma eq_of_map_indexed_eq {p q : List KeyStep} (hp : IdentifierPath p) (hq : IdentifierPath q)
    (h : p.map (fun step => step.indexed.toList) = q.map fun step => step.indexed.toList) :
    p = q := by
  induction p generalizing q with
  | nil => simpa using h
  | cons s p ih =>
      cases q with
      | nil => simp at h
      | cons t q =>
          simp only [List.map_cons, List.cons.injEq] at h
          have hstep : s = t := eq_of_indexed_eq (hp s List.mem_cons_self) (hq t List.mem_cons_self)
            (String.toList_inj.mp h.1)
          have hrest := ih (fun x hx => hp x (List.mem_cons_of_mem s hx))
            (fun x hx => hq x (List.mem_cons_of_mem t hx)) h.2
          rw [hstep, hrest]

end KeyStep

/-! ### Whole keys -/

/-- The second text is the first with every number in brackets removed, and it has no brackets. -/
inductive PositionsRemoved : List Char → List Char → Prop where
  | nil : PositionsRemoved [] []
  | keep {c : Char} {full flat : List Char} :
    c ≠ '[' → c ≠ ']' → PositionsRemoved full flat → PositionsRemoved (c :: full) (c :: flat)
  | remove (n : ℕ) {full flat : List Char} :
    PositionsRemoved full flat →
      PositionsRemoved ('[' :: ((toString n).toList ++ ']' :: full)) flat

/-- A text without brackets stays in front of what is left. -/
lemma PositionsRemoved.plain_append {text full flat : List Char}
    (htext : ∀ c ∈ text, c ≠ '[' ∧ c ≠ ']') (h : PositionsRemoved full flat) :
    PositionsRemoved (text ++ full) (text ++ flat) := by
  induction text with
  | nil => exact h
  | cons c text ih =>
      obtain ⟨hopen, hclose⟩ := htext c List.mem_cons_self
      exact .keep hopen hclose (ih fun x hx => htext x (List.mem_cons_of_mem c hx))

/-- Of a step the name is left. -/
lemma PositionsRemoved.indexed_append {step : KeyStep} (hstep : Identifier step.name)
    {full flat : List Char} (h : PositionsRemoved full flat) :
    PositionsRemoved (step.indexed.toList ++ full) (step.name.toList ++ flat) := by
  rw [KeyStep.toList_indexed, List.append_assoc]
  refine plain_append (fun c hc => (hstep.plain c hc).2) ?_
  cases hposition : step.position with
  | none => simpa [KeyStep.positionText, hposition] using h
  | some n => simpa [KeyStep.positionText, hposition] using h.remove n

namespace Key

/-- **The flat key** is the full one with every position removed. -/
theorem positionsRemoved_ofPath {path : List KeyStep} (h : IdentifierPath path) :
    PositionsRemoved (ofPath path).full.toList (ofPath path).flat.toList := by
  induction path with
  | nil => exact .nil
  | cons step path ih =>
      have hstep : Identifier step.name := h step List.mem_cons_self
      have hrest := ih fun t ht => h t (List.mem_cons_of_mem step ht)
      by_cases hpath : path = []
      · subst hpath
        simpa [ofPath] using PositionsRemoved.indexed_append hstep .nil
      · have hnames : path.map KeyStep.name ≠ [] := by simpa using hpath
        have hindexed : path.map KeyStep.indexed ≠ [] := by simpa using hpath
        have hdot : PositionsRemoved ('.' :: (ofPath path).full.toList)
            ('.' :: (ofPath path).flat.toList) := .keep (by decide) (by decide) hrest
        simpa [ofPath, String.intercalate_cons_of_ne_nil hnames,
          String.intercalate_cons_of_ne_nil hindexed] using
          PositionsRemoved.indexed_append hstep hdot

/-- The steps of a way are the parts of its full key between the dots. -/
lemma splitOn_full {path : List KeyStep} (h : IdentifierPath path) (hne : path ≠ []) :
    (ofPath path).full.toList.splitOn '.' = path.map fun step => step.indexed.toList := by
  have hdots : ∀ text ∈ path.map (fun step => step.indexed.toList), '.' ∉ text := by
    intro text htext
    obtain ⟨step, hstep, rfl⟩ := List.mem_map.mp htext
    exact KeyStep.dot_notMem_indexed (h step hstep)
  have htext : (ofPath path).full.toList =
      ['.'].intercalate (path.map fun step => step.indexed.toList) := by
    rw [ofPath, String.toList_intercalate, List.map_map]
    rfl
  rw [htext, List.splitOn_intercalate '.' hdots (by simpa using hne)]

lemma full_ne_empty {path : List KeyStep} (h : IdentifierPath path) (hne : path ≠ []) :
    (ofPath path).full ≠ "" := by
  refine intercalate_ne_empty (by simpa using hne) fun text htext => ?_
  obtain ⟨step, hstep, rfl⟩ := List.mem_map.mp htext
  exact KeyStep.indexed_ne_empty (h step hstep)

/-- **A way can be read back** from its full key. -/
theorem eq_of_full_eq {p q : List KeyStep} (hp : IdentifierPath p) (hq : IdentifierPath q)
    (h : (ofPath p).full = (ofPath q).full) : p = q := by
  by_cases hpnil : p = []
  · subst hpnil
    by_contra hqnil
    exact full_ne_empty hq (Ne.symm hqnil) h.symm
  · have hqnil : q ≠ [] := by
      rintro rfl
      exact full_ne_empty hp hpnil h
    have hparts : p.map (fun step => step.indexed.toList) =
        q.map fun step => step.indexed.toList := by
      rw [← splitOn_full hp hpnil, h, splitOn_full hq hqnil]
    exact KeyStep.eq_of_map_indexed_eq hp hq hparts

end Key

end AtomTimeline
