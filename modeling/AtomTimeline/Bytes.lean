/-!
Byte strings.

* `Bytes.splitFront?_eq_some_iff`: splitting off a front of `n` bytes succeeds exactly when the
  string is such a front followed by the rest.
* `Bytes.length_ofNatLE`: a little-endian number of a given width has that many bytes.
-/

namespace AtomTimeline

/-- A byte string. -/
abbrev Bytes := List UInt8

namespace Bytes

/-- The first `n` bytes and the rest, if there are `n`. Only the front is walked, whatever the
length of the rest. -/
def splitFront? (n : Nat) (b : Bytes) : Option (Bytes × Bytes) :=
  let front := b.take n
  if front.length = n then some (front, b.drop n) else none

theorem splitFront?_eq_some_iff {n : Nat} {b front rest : Bytes} :
    splitFront? n b = some (front, rest) ↔ b = front ++ rest ∧ front.length = n := by
  constructor
  · intro h
    simp only [splitFront?] at h
    split at h
    · next hn =>
      obtain ⟨rfl, rfl⟩ := Prod.mk.inj (Option.some.inj h)
      exact ⟨(List.take_append_drop n b).symm, hn⟩
    · cases h
  · rintro ⟨rfl, rfl⟩
    simp [splitFront?]

theorem splitFront?_eq_none_iff {n : Nat} {b : Bytes} :
    splitFront? n b = none ↔ b.length < n := by
  simp only [splitFront?, List.length_take]
  split
  · simp; omega
  · simp; omega

/-- The number whose little-endian digits in base 256 are the bytes. -/
def toNatLE : Bytes → Nat
  | [] => 0
  | x :: b => x.toNat + 256 * toNatLE b

/-- The `width` low digits of a number in base 256, little-endian. -/
def ofNatLE : (width : Nat) → Nat → Bytes
  | 0, _ => []
  | width + 1, n => UInt8.ofNat (n % 256) :: ofNatLE width (n / 256)

@[simp] theorem length_ofNatLE (width n : Nat) : (ofNatLE width n).length = width := by
  induction width generalizing n with
  | zero => rfl
  | succ width ih => simp [ofNatLE, ih]

end Bytes

end AtomTimeline
