import AtomTimeline.Bytes

/-!
Variable-length integers: 7-bit groups, least significant first, the top bit of a byte saying
that another group follows.

* `Varint.length_lt_of_read`: reading consumes at least one byte.
* `Varint.suffix_of_read`, `Varint.suffix_of_read_error`: what reading leaves is a tail of the
  input, whether it succeeds or not.
-/

namespace AtomTimeline

/-- What is wrong with bytes read strictly, without a field around them. -/
inductive WireError where
  /-- The varint that starts at `offset` does not end within its bytes. -/
  | truncatedVarint (offset : Nat)
  deriving DecidableEq, Repr

/-- The text of an error. -/
def WireError.message : WireError → String
  | .truncatedVarint offset => s!"truncated varint at offset {offset}"

namespace Varint

/-- Why no varint could be read. -/
inductive Fault where
  /-- The bytes end before the last group. -/
  | cutOff
  /-- As many bytes were read as a varint may take, and all of them promise another. -/
  | tooLong
  deriving DecidableEq, Repr

/-- The most bytes one varint may take. -/
def maxLength : Nat := 10

/-- Reads at most `limit` groups. A fault comes with the bytes left unread where it shows. -/
def readGroups : (limit : Nat) → Bytes → Except (Fault × Bytes) (Nat × Bytes)
  | 0, rest => .error (.tooLong, rest)
  | _ + 1, [] => .error (.cutOff, [])
  | limit + 1, x :: rest =>
    if x < 128 then .ok (x.toNat, rest)
    else
      match readGroups limit rest with
      | .ok (n, after) => .ok (x.toNat % 128 + 128 * n, after)
      | .error fault => .error fault

/-- Reads one varint. Ten groups hold 70 bits; those above 64 are dropped. -/
def read (b : Bytes) : Except (Fault × Bytes) (UInt64 × Bytes) :=
  match readGroups maxLength b with
  | .ok (n, rest) => .ok (UInt64.ofNat n, rest)
  | .error fault => .error fault

/-- The groups of a number, all but the last marked. -/
def groups (n : Nat) : Bytes :=
  if n < 128 then [UInt8.ofNat n] else UInt8.ofNat (n % 128 + 128) :: groups (n / 128)

/-- Writes a varint in as few bytes as it takes. -/
def write (v : UInt64) : Bytes := groups v.toNat

/-- Reads the varint at position `pos` of a buffer; the second part is the position afterwards,
behind every byte looked at. -/
def readAt (b : Bytes) (pos : Nat) : Except WireError UInt64 × Nat :=
  let present := b.drop pos
  match read present with
  | .ok (v, rest) => (.ok v, pos + (present.length - rest.length))
  | .error (_, rest) => (.error (.truncatedVarint pos), pos + (present.length - rest.length))

/-! ### What reading leaves -/

theorem suffix_of_readGroups {limit : Nat} {b rest : Bytes} {n : Nat}
    (h : readGroups limit b = .ok (n, rest)) : rest <:+ b ∧ rest.length < b.length := by
  induction limit generalizing b n with
  | zero => simp [readGroups] at h
  | succ limit ih =>
    cases b with
    | nil => simp [readGroups] at h
    | cons x b =>
      simp only [readGroups] at h
      split at h
      · cases h
        exact ⟨List.suffix_cons x rest, by simp⟩
      · split at h
        · next hr =>
          cases h
          have := ih hr
          exact ⟨this.1.trans (List.suffix_cons x b), by simp; omega⟩
        · cases h

theorem suffix_of_readGroups_error {limit : Nat} {b rest : Bytes} {fault : Fault}
    (h : readGroups limit b = .error (fault, rest)) : rest <:+ b := by
  induction limit generalizing b with
  | zero =>
    simp only [readGroups] at h
    cases h
    exact List.suffix_refl _
  | succ limit ih =>
    cases b with
    | nil =>
      simp only [readGroups] at h
      cases h
      exact List.suffix_refl _
    | cons x b =>
      simp only [readGroups] at h
      split at h
      · cases h
      · split at h
        · cases h
        · next hr =>
          cases h
          exact (ih hr).trans (List.suffix_cons x b)

theorem suffix_of_read {b rest : Bytes} {v : UInt64} (h : read b = .ok (v, rest)) :
    rest <:+ b := by
  simp only [read] at h
  split at h
  · next hr =>
    cases h
    exact (suffix_of_readGroups hr).1
  · cases h

theorem length_lt_of_read {b rest : Bytes} {v : UInt64} (h : read b = .ok (v, rest)) :
    rest.length < b.length := by
  simp only [read] at h
  split at h
  · next hr =>
    cases h
    exact (suffix_of_readGroups hr).2
  · cases h

theorem suffix_of_read_error {b rest : Bytes} {fault : Fault}
    (h : read b = .error (fault, rest)) : rest <:+ b := by
  simp only [read] at h
  split at h
  · cases h
  · next hr =>
    cases h
    exact suffix_of_readGroups_error hr

end Varint

/-! ### Zig-zag numbers -/

/-- Signed numbers in the order 0, -1, 1, -2, 2, … -/
def Zigzag.toInt (n : Nat) : Int :=
  if n % 2 = 0 then Int.ofNat (n / 2) else -Int.ofNat (n / 2) - 1

/-- The signed number a 64-bit word stands for in zig-zag order. -/
def Zigzag.read64 (v : UInt64) : Int64 := Int64.ofInt (toInt v.toNat)

/-- The signed number the low 32 bits of a word stand for in zig-zag order. -/
def Zigzag.read32 (v : UInt64) : Int64 := Int64.ofInt (toInt v.toUInt32.toNat)

/-! ### Packed runs -/

namespace Varint

/-- Cuts a run into varints. A fault is the tail that starts with the unreadable one. -/
def split (b : Bytes) : Except Bytes (List UInt64) :=
  match b with
  | [] => .ok []
  | x :: b =>
    match _h : read (x :: b) with
    | .error _ => .error (x :: b)
    | .ok (v, rest) =>
      match split rest with
      | .ok vs => .ok (v :: vs)
      | .error tail => .error tail
termination_by b.length
decreasing_by exact length_lt_of_read _h

/-- The values of a packed run of varints. -/
def readPacked (b : Bytes) : Except WireError (List UInt64) :=
  match split b with
  | .ok vs => .ok vs
  | .error tail => .error (.truncatedVarint (b.length - tail.length))

end Varint

end AtomTimeline
