import Mathlib.Data.Nat.Bitwise
import AtomTimeline.Proofs.Wire.Grammar
import AtomTimeline.Trace.Source

/-!
Varints in words of 64 bits. A group is put into a word at a shift that grows by seven; the tenth
one is put in at 63, where all of it but one bit is lost.

* `Varint.readShifting` puts groups into a word, `Varint.readShiftingAt` and `Source.readShifting`
  do so at a position of a buffer and from a source, and `Varint.writeShifting` takes them out
  again. `Varint.readShifting_eq_read`: shifting gives the number that the groups make up modulo `2
  ^ 64`.
* `Varint.readShiftingAt_eq_readAt`, `Source.readShifting_eq_readVarint`,
  `Varint.writeShifting_eq` and `Varint.readRun_eq_readPacked`: so all that reads and writes varints
  can be done by shifting.
* `Varint.StandsAt` says byte by byte where a varint stands; `Varint.readAt_eq_ok_iff`: what is read
  at a position is what stands there.
* `Varint.readers_and_writer_agree`: the two readers and the writer agree on what a varint is.
-/

namespace AtomTimeline

namespace Varint

/-! ### Groups in a word -/

/-- A word with the low seven bits of a byte put in at a shift. -/
def withGroup (word : UInt64) (x : UInt8) (shift : ℕ) : UInt64 :=
  word ||| (x &&& 0x7f).toUInt64 <<< UInt64.ofNat shift

lemma toNat_group (x : UInt8) : (x &&& 0x7f).toUInt64.toNat = x.toNat % 128 := by
  rw [UInt8.toNat_toUInt64, UInt8.toNat_and]
  exact Nat.and_two_pow_sub_one_eq_mod x.toNat 7

/-- The top bit of a byte is not set if and only if the byte is unmarked. -/
lemma and_top_eq_zero_iff (x : UInt8) : x &&& 0x80 = 0 ↔ x < 128 := by
  have htop : 128 &&& x.toNat = 128 * (x.toNat.testBit 7).toNat := Nat.two_pow_and x.toNat 7
  have hlt : x.toNat < 256 := x.toNat_lt
  rw [← UInt8.toNat_inj, UInt8.toNat_and, UInt8.lt_iff_toNat_lt, Nat.and_comm]
  simp only [UInt8.reduceToNat, htop, Nat.testBit_eq_decide_div_mod_eq]
  by_cases h : x.toNat / 2 ^ 7 % 2 = 1
  · rw [decide_eq_true h]
    simp
    omega
  · rw [decide_eq_false h]
    simp
    omega

/-- With its top bit set, a byte is marked and keeps its group. -/
lemma toNat_or_top (x : UInt8) : (x ||| 0x80).toNat = x.toNat % 128 + 128 := by
  have hlt : x.toNat < 256 := x.toNat_lt
  have hgroup : x.toNat % 128 < 2 ^ 7 := Nat.mod_lt _ (by omega)
  have hsplit : x.toNat = 2 ^ 7 * (x.toNat / 128) ||| x.toNat % 128 := by
    rw [← Nat.two_pow_add_eq_or_of_lt hgroup]
    omega
  have htop : 2 ^ 7 * (x.toNat / 128) ||| 2 ^ 7 * 1 = 2 ^ 7 * 1 := by
    have : x.toNat / 128 < 2 := by omega
    interval_cases x.toNat / 128 <;> rfl
  calc (x ||| 0x80).toNat
      = x.toNat ||| 2 ^ 7 * 1 := UInt8.toNat_or x 0x80
    _ = 2 ^ 7 * (x.toNat / 128) ||| x.toNat % 128 ||| 2 ^ 7 * 1 := by rw [← hsplit]
    _ = 2 ^ 7 * 1 ||| x.toNat % 128 := by
        rw [Nat.lor_assoc, Nat.lor_comm (x.toNat % 128), ← Nat.lor_assoc, htop]
    _ = x.toNat % 128 + 128 := by rw [← Nat.two_pow_add_eq_or_of_lt hgroup, Nat.add_comm]

/-- A group that is put above the bits of a word is added to it, at its place. -/
lemma toNat_withGroup {word : UInt64} {shift : ℕ} (hshift : shift < 64)
    (hword : word.toNat < 2 ^ shift) (x : UInt8) :
    (withGroup word x shift).toNat = (word.toNat + 2 ^ shift * (x.toNat % 128)) % 2 ^ 64 := by
  have hwidth : (2 : ℕ) ^ 64 = 2 ^ shift * 2 ^ (64 - shift) := by
    rw [← pow_add, Nat.add_sub_cancel' hshift.le]
  have hamount : (UInt64.ofNat shift).toNat % 64 = shift := by
    rw [UInt64.toNat_ofNat_of_lt' (lt_trans hshift (by decide)), Nat.mod_eq_of_lt hshift]
  generalize hg : x.toNat % 128 = g
  have hput : (word ||| (x &&& 0x7f).toUInt64 <<< UInt64.ofNat shift).toNat =
      word.toNat ||| 2 ^ shift * (g % 2 ^ (64 - shift)) := by
    rw [UInt64.toNat_or, UInt64.toNat_shiftLeft, hamount, toNat_group, hg, Nat.shiftLeft_eq,
      Nat.mul_comm g, hwidth, Nat.mul_mod_mul_left]
  calc (withGroup word x shift).toNat
      = 2 ^ shift * (g % 2 ^ (64 - shift)) + word.toNat := by
        rw [withGroup, hput, Nat.lor_comm, Nat.two_pow_add_eq_or_of_lt hword]
    _ = (word.toNat + 2 ^ shift * g) % 2 ^ 64 := by
        rw [hwidth, Nat.mod_mul, Nat.add_mul_mod_self_left, Nat.mod_eq_of_lt hword,
          Nat.add_mul_div_left _ _ (Nat.two_pow_pos shift), Nat.div_eq_of_lt hword, Nat.zero_add,
          Nat.add_comm]

/-- Below the tenth group nothing is lost. -/
lemma toNat_withGroup_of_room {word : UInt64} {shift : ℕ} (hroom : shift + 7 < 64)
    (hword : word.toNat < 2 ^ shift) (x : UInt8) :
    (withGroup word x shift).toNat = word.toNat + 2 ^ shift * (x.toNat % 128) ∧
      (withGroup word x shift).toNat < 2 ^ (shift + 7) := by
  have hgroup : 2 ^ shift * (x.toNat % 128) ≤ 2 ^ shift * 127 := Nat.mul_le_mul_left _ (by omega)
  have hbelow : word.toNat + 2 ^ shift * (x.toNat % 128) < 2 ^ (shift + 7) := by
    rw [pow_add]
    omega
  have hfits : (2 : ℕ) ^ (shift + 7) ≤ 2 ^ 64 := Nat.pow_le_pow_right (by omega) hroom.le
  have hsum := toNat_withGroup (by omega) hword x
  rw [Nat.mod_eq_of_lt (lt_of_lt_of_le hbelow hfits)] at hsum
  exact ⟨hsum, hsum ▸ hbelow⟩

/-! ### Reading -/

/-- Puts the groups of a varint into a word, from a shift on. -/
def readShifting (shift : ℕ) (word : UInt64) : Bytes → Except (Fault × Bytes) (UInt64 × Bytes)
  | [] => .error (.cutOff, [])
  | x :: rest =>
    if x &&& 0x80 = 0 then .ok (withGroup word x shift, rest)
    else if 64 ≤ shift + 7 then .error (.tooLong, rest)
    else readShifting (shift + 7) (withGroup word x shift) rest

/-- With `limit` groups to go, the groups that follow are put above those that are in the word. -/
lemma readShifting_eq_readGroups {limit shift : ℕ} (hlimit : shift + 7 * (limit + 1) = 70)
    {word : UInt64} (hword : word.toNat < 2 ^ shift) (b : Bytes) :
    readShifting shift word b =
      match readGroups (limit + 1) b with
      | .ok (n, rest) => .ok (UInt64.ofNat (word.toNat + 2 ^ shift * n), rest)
      | .error fault => .error fault := by
  induction b generalizing limit shift word with
  | nil => rfl
  | cons x b ih =>
      rw [readShifting, readGroups]
      by_cases hx : x < 128
      · have hvalue : x.toNat % 128 = x.toNat :=
          Nat.mod_eq_of_lt (by simpa [UInt8.lt_iff_toNat_lt] using hx)
        have hput : withGroup word x shift = UInt64.ofNat (word.toNat + 2 ^ shift * x.toNat) := by
          rw [← UInt64.toNat_inj, toNat_withGroup (by omega) hword, hvalue, UInt64.toNat_ofNat']
        rw [if_pos ((and_top_eq_zero_iff x).mpr hx), if_pos hx, hput]
      · rw [if_neg (mt (and_top_eq_zero_iff x).mp hx), if_neg hx]
        cases limit with
        -- the tenth group is the last one that a word has room for
        | zero => rw [if_pos (by omega), readGroups]
        | succ limit =>
            obtain ⟨hput, hbelow⟩ := toNat_withGroup_of_room (by omega) hword x
            have hlimit' : shift + 7 + 7 * (limit + 1) = 70 := by omega
            rw [if_neg (by omega), ih hlimit' hbelow]
            cases readGroups (limit + 1) b with
            | error fault => rfl
            | ok found =>
                obtain ⟨n, rest⟩ := found
                have hsum : word.toNat + 2 ^ shift * (x.toNat % 128) + 2 ^ (shift + 7) * n =
                    word.toNat + 2 ^ shift * (x.toNat % 128 + 128 * n) := by
                  ring
                simp only [hput, hsum]

/-- **Shifting** gives the number that the groups make up, as far as a word holds it. -/
theorem readShifting_eq_read (b : Bytes) : readShifting 0 0 b = read b := by
  have hlimit : 0 + 7 * (9 + 1) = 70 := rfl
  rw [readShifting_eq_readGroups hlimit (by simp), read, maxLength]
  cases readGroups (9 + 1) b <;> simp

/-- Reads on at a position a varint that starts at `start`. The second part is the position
afterwards. -/
def readShiftingAt (b : Bytes) (start pos shift : ℕ) (word : UInt64) :
    Except WireError UInt64 × ℕ :=
  match b[pos]? with
  | none => (.error (.truncatedVarint start), pos)
  | some x =>
    if x &&& 0x80 = 0 then (.ok (withGroup word x shift), pos + 1)
    else if 64 ≤ shift + 7 then (.error (.truncatedVarint start), pos + 1)
    else readShiftingAt b start (pos + 1) (shift + 7) (withGroup word x shift)
termination_by 64 - shift

/-- The position is as far into the bytes as there are bytes left behind it. -/
lemma readShiftingAt_eq {b : Bytes} {pos : ℕ} (hpos : pos ≤ b.length) (start shift : ℕ)
    (word : UInt64) :
    readShiftingAt b start pos shift word =
      match readShifting shift word (b.drop pos) with
      | .ok (v, rest) => (.ok v, b.length - rest.length)
      | .error (_, rest) => (.error (.truncatedVarint start), b.length - rest.length) := by
  induction hb : b.drop pos generalizing pos shift word with
  -- along the bytes behind the position; what was read is in `shift` and `word`
  | nil =>
      have hend : b.length ≤ pos := List.drop_eq_nil_iff.mp hb
      rw [readShiftingAt, List.getElem?_eq_none hend, readShifting]
      simp only [List.length_nil, Nat.sub_zero, Nat.le_antisymm hpos hend]
  | cons x rest ih =>
      have hlength := congrArg List.length hb
      rw [List.length_drop, List.length_cons] at hlength
      have hx : b[pos]? = some x := by
        rw [← Nat.add_zero pos, ← List.getElem?_drop, hb, List.getElem?_cons_zero]
      have hrest : b.drop (pos + 1) = rest := by
        rw [← List.drop_drop, hb, List.drop_one, List.tail_cons]
      have hnext : pos + 1 = b.length - rest.length := by omega
      rw [readShiftingAt, hx, readShifting]
      simp only
      split
      · rw [hnext]
      · split
        · rw [hnext]
        · exact ih (by omega) _ _ hrest

lemma readAt_of_read {b rest : Bytes} {pos : ℕ} {v : UInt64} (hpos : pos ≤ b.length)
    (h : read (b.drop pos) = .ok (v, rest)) :
    readAt b pos = (.ok v, b.length - rest.length) := by
  have hle := (suffix_of_read h).length_le
  rw [List.length_drop] at hle
  simp only [readAt, h, List.length_drop]
  rw [show pos + (b.length - pos - rest.length) = b.length - rest.length by omega]

lemma readAt_of_read_error {b rest : Bytes} {pos : ℕ} {fault : Fault} (hpos : pos ≤ b.length)
    (h : read (b.drop pos) = .error (fault, rest)) :
    readAt b pos = (.error (.truncatedVarint pos), b.length - rest.length) := by
  have hle := (suffix_of_read_error h).length_le
  rw [List.length_drop] at hle
  simp only [readAt, h, List.length_drop]
  rw [show pos + (b.length - pos - rest.length) = b.length - rest.length by omega]

/-- **Reading at a position** shifts groups into a word. -/
theorem readShiftingAt_eq_readAt (b : Bytes) (pos : ℕ) :
    readShiftingAt b pos pos 0 0 = readAt b pos := by
  rcases Nat.lt_or_ge b.length pos with hbehind | hpos
  · have hnil : b.drop pos = [] := List.drop_eq_nil_of_le hbehind.le
    rw [readShiftingAt, List.getElem?_eq_none hbehind.le, readAt, hnil]
    rfl
  · rw [readShiftingAt_eq hpos, readShifting_eq_read]
    cases h : read (b.drop pos) with
    | ok found => exact (readAt_of_read hpos h).symm
    | error found => exact (readAt_of_read_error hpos h).symm

end Varint

namespace Source

/-- Reads on a varint from a source, byte by byte. -/
def readShifting (shift : ℕ) (word : UInt64) (s : Source) : Except ReadError (UInt64 × Source) :=
  match s.readExactly 1 fun _ => .endOfInput with
  | .error e => .error e
  | .ok (front, rest) =>
    let x := front.headD 0
    if x &&& 0x80 = 0 then .ok (Varint.withGroup word x shift, rest)
    else if 64 ≤ shift + 7 then .error .varintTooLarge
    else rest.readShifting (shift + 7) (Varint.withGroup word x shift)
termination_by 64 - shift

/-- What a source makes of a varint, or of the fault in its place. -/
def afterVarint (fault : Option SourceFault) :
    Except (Varint.Fault × Bytes) (UInt64 × Bytes) → Except ReadError (UInt64 × Source)
  | .ok (v, rest) => .ok (v, ⟨rest, fault⟩)
  | .error (.cutOff, rest) => .error (runOut ⟨rest, fault⟩ .endOfInput)
  | .error (.tooLong, _) => .error .varintTooLarge

lemma readVarint_eq (b : Bytes) (fault : Option SourceFault) :
    readVarint ⟨b, fault⟩ = afterVarint fault (Varint.read b) := by
  rw [readVarint]
  cases Varint.read b with
  | ok found => rfl
  | error found =>
      obtain ⟨kind, rest⟩ := found
      cases kind <;> rfl

lemma readShifting_cons (x : UInt8) (b : Bytes) (fault : Option SourceFault) (shift : ℕ)
    (word : UInt64) :
    readShifting shift word ⟨x :: b, fault⟩ =
      if x &&& 0x80 = 0 then .ok (Varint.withGroup word x shift, ⟨b, fault⟩)
      else if 64 ≤ shift + 7 then .error .varintTooLarge
      else readShifting (shift + 7) (Varint.withGroup word x shift) ⟨b, fault⟩ := by
  rw [readShifting]
  rfl

lemma readShifting_eq (b : Bytes) (fault : Option SourceFault) (shift : ℕ) (word : UInt64) :
    readShifting shift word ⟨b, fault⟩ = afterVarint fault (Varint.readShifting shift word b) := by
  induction b generalizing shift word with
  | nil =>
      rw [readShifting, Varint.readShifting]
      rfl
  | cons x b ih =>
      rw [readShifting_cons, Varint.readShifting]
      by_cases hx : x &&& 0x80 = 0
      · rw [if_pos hx, if_pos hx, afterVarint]
      · rw [if_neg hx, if_neg hx]
        by_cases hlong : 64 ≤ shift + 7
        · rw [if_pos hlong, if_pos hlong, afterVarint]
        · rw [if_neg hlong, if_neg hlong, ih]

/-- **Reading from a source** shifts groups into a word. -/
theorem readShifting_eq_readVarint (s : Source) : s.readShifting 0 0 = s.readVarint := by
  obtain ⟨b, fault⟩ := s
  rw [readShifting_eq, Varint.readShifting_eq_read, readVarint_eq]

/-- A varint is read from a source just where one is read from its bytes. -/
lemma readVarint_eq_ok_iff {b : Bytes} {fault : Option SourceFault} {v : UInt64} {after : Source} :
    readVarint ⟨b, fault⟩ = .ok (v, after) ↔
      ∃ rest, Varint.read b = .ok (v, rest) ∧ after = ⟨rest, fault⟩ := by
  rw [readVarint_eq]
  cases Varint.read b with
  | ok found =>
      obtain ⟨w, rest⟩ := found
      simp only [afterVarint, Except.ok.injEq, Prod.mk.injEq]
      constructor
      · rintro ⟨rfl, rfl⟩
        exact ⟨rest, ⟨rfl, rfl⟩, rfl⟩
      · rintro ⟨_, ⟨rfl, rfl⟩, rfl⟩
        exact ⟨rfl, rfl⟩
  | error found =>
      obtain ⟨kind, rest⟩ := found
      cases kind <;> simp [afterVarint]

end Source

namespace Varint

/-! ### Writing -/

/-- Writes the low groups of a word behind what was written, the low one first. -/
def writeShifting (out : Bytes) (v : UInt64) : Bytes :=
  if 0x80 ≤ v then writeShifting (out ++ [v.toUInt8 ||| 0x80]) (v >>> 7)
  else out ++ [v.toUInt8]
termination_by v.toNat
decreasing_by
  next h =>
  have hle : 128 ≤ v.toNat := UInt64.le_iff_toNat_le.mp h
  rw [UInt64.toNat_shiftRight]
  simp [Nat.shiftRight_eq_div_pow]
  omega

/-- **Writing** takes the groups out of a word. -/
theorem writeShifting_eq (out : Bytes) (v : UInt64) : writeShifting out v = out ++ write v := by
  fun_induction writeShifting out v with
  | case1 out v h ih =>
      have hle : 128 ≤ v.toNat := UInt64.le_iff_toNat_le.mp h
      have hmarked : v.toUInt8 ||| 0x80 = UInt8.ofNat (v.toNat % 128 + 128) := by
        rw [← UInt8.toNat_inj, toNat_or_top, UInt64.toNat_toUInt8, UInt8.toNat_ofNat']
        omega
      have hshift : (v >>> 7).toNat = v.toNat / 128 := by
        rw [UInt64.toNat_shiftRight]
        exact Nat.shiftRight_eq_div_pow _ 7
      rw [ih, write, write, groups_of_le hle, hmarked, hshift, List.append_assoc,
        List.singleton_append]
  | case2 out v h =>
      have hlt : v.toNat < 128 := by
        rw [UInt64.le_iff_toNat_le] at h
        exact Nat.lt_of_not_le h
      have hlast : v.toUInt8 = UInt8.ofNat v.toNat := by
        rw [← UInt8.toNat_inj, UInt64.toNat_toUInt8, UInt8.toNat_ofNat']
      rw [write, groups_of_lt hlt, hlast]

/-! ### What stands at a position -/

/-- At the position there is a varint of `k` bytes: from one to ten, all but the last with the top
bit set, whose groups of seven bits make up the number modulo `2 ^ 64`, the lowest one first. -/
structure StandsAt (b : Bytes) (pos k : ℕ) (v : UInt64) : Prop where
  one_le : 1 ≤ k
  le_ten : k ≤ 10
  present : pos + k ≤ b.length
  marked : ∀ i < k - 1, 128 ≤ b.getD (pos + i) 0
  unmarked : b.getD (pos + (k - 1)) 0 < 128
  toNat_eq : v.toNat =
    (∑ i ∈ Finset.range k, (b.getD (pos + i) 0).toNat % 128 * 2 ^ (7 * i)) % 2 ^ 64

lemma groupSum_eq_sum (p : Bytes) :
    groupSum p = ∑ i ∈ Finset.range p.length, (p.getD i 0).toNat % 128 * 2 ^ (7 * i) := by
  induction p with
  | nil => rfl
  | cons x p ih =>
      rw [groupSum, ih, List.length_cons, Finset.sum_range_succ', Finset.mul_sum, Nat.add_comm]
      congr 1
      · refine Finset.sum_congr rfl fun i _ => ?_
        rw [List.getD_cons_succ, Nat.mul_succ, pow_add]
        ring
      · simp

/-- A spelling, byte by byte. -/
lemma spells_iff {p : Bytes} {v : UInt64} :
    Spells p v ↔ 1 ≤ p.length ∧ p.length ≤ 10 ∧ (∀ i < p.length - 1, 128 ≤ p.getD i 0) ∧
      p.getD (p.length - 1) 0 < 128 ∧
      v.toNat = (∑ i ∈ Finset.range p.length, (p.getD i 0).toNat % 128 * 2 ^ (7 * i)) % 2 ^ 64 := by
  have hvalue : value p = v ↔ v.toNat = groupSum p % 2 ^ 64 := by
    rw [value, ← UInt64.toNat_inj, UInt64.toNat_ofNat', eq_comm]
  have hmarked : (∀ x ∈ p.dropLast, ¬ x < 128) ↔ ∀ i < p.length - 1, 128 ≤ p.getD i 0 := by
    rw [← List.length_dropLast, List.forall_mem_iff_getElem]
    refine forall₂_congr fun i hi => ?_
    rw [List.getElem_dropLast, List.getD_eq_getElem, UInt8.not_lt]
  have hended : Ended p ↔ 1 ≤ p.length ∧ p.getD (p.length - 1) 0 < 128 := by
    rw [Ended, List.getLast?_eq_getElem?, List.getD_eq_getElem?_getD]
    cases hp : p with
    | nil => simp
    | cons x p => simp
  rw [groupSum_eq_sum] at hvalue
  rw [← hmarked, ← hvalue]
  constructor
  · rintro ⟨⟨hle, hall, hend⟩, hv⟩
    exact ⟨(hended.mp hend).1, hle, hall, (hended.mp hend).2, hv⟩
  · rintro ⟨hone, hle, hall, hlast, hv⟩
    exact ⟨⟨hle, hall, hended.mpr ⟨hone, hlast⟩⟩, hv⟩

/-- What is at the front of the bytes behind a position is a spelling if and only if a varint stands
there. -/
lemma spells_iff_standsAt {b p rest : Bytes} {pos : ℕ} {v : UInt64}
    (hsplit : b.drop pos = p ++ rest) (hone : 1 ≤ p.length) :
    Spells p v ↔ StandsAt b pos p.length v := by
  have hpresent : pos + p.length ≤ b.length := by
    have hlength := congrArg List.length hsplit
    rw [List.length_drop, List.length_append] at hlength
    omega
  have hbyte : ∀ i < p.length, p.getD i 0 = b.getD (pos + i) 0 := by
    intro i hi
    rw [List.getD_eq_getElem?_getD, List.getD_eq_getElem?_getD, ← List.getElem?_drop, hsplit,
      List.getElem?_append_left hi]
  have hsum : ∑ i ∈ Finset.range p.length, (p.getD i 0).toNat % 128 * 2 ^ (7 * i) =
      ∑ i ∈ Finset.range p.length, (b.getD (pos + i) 0).toNat % 128 * 2 ^ (7 * i) :=
    Finset.sum_congr rfl fun i hi => by rw [hbyte i (Finset.mem_range.mp hi)]
  have hmarked : (∀ i < p.length - 1, 128 ≤ p.getD i 0) ↔
      ∀ i < p.length - 1, 128 ≤ b.getD (pos + i) 0 :=
    forall₂_congr fun i hi => by rw [hbyte i (by omega)]
  rw [spells_iff, hsum, hmarked, hbyte _ (by omega)]
  constructor
  · rintro ⟨hone, hten, hall, hlast, hv⟩
    exact ⟨hone, hten, hpresent, hall, hlast, hv⟩
  · rintro ⟨hone, hten, -, hall, hlast, hv⟩
    exact ⟨hone, hten, hall, hlast, hv⟩

/-- A varint stands at a position if and only if a spelling of it begins there. -/
lemma standsAt_iff {b : Bytes} {pos k : ℕ} {v : UInt64} :
    StandsAt b pos k v ↔ ∃ p rest, b.drop pos = p ++ rest ∧ p.length = k ∧ Spells p v := by
  constructor
  · intro h
    have hlength : ((b.drop pos).take k).length = k := by
      have := h.present
      rw [List.length_take, List.length_drop]
      omega
    have hsplit : b.drop pos = (b.drop pos).take k ++ (b.drop pos).drop k :=
      (List.take_append_drop k _).symm
    refine ⟨_, _, hsplit, hlength, (spells_iff_standsAt hsplit ?_).mpr ?_⟩
    · rw [hlength]
      exact h.one_le
    · rwa [hlength]
  · rintro ⟨p, rest, hsplit, rfl, hp⟩
    exact (spells_iff_standsAt hsplit (spells_iff.mp hp).1).mp hp

/-- **What is read at a position** is the varint that stands there. -/
theorem readAt_eq_ok_iff {b : Bytes} {pos k : ℕ} {v : UInt64} :
    readAt b pos = (.ok v, pos + k) ↔ StandsAt b pos k v := by
  rw [standsAt_iff]
  constructor
  · intro h
    cases hread : read (b.drop pos) with
    | error found =>
        simp only [readAt, hread, Prod.mk.injEq, reduceCtorEq, false_and] at h
    | ok found =>
        obtain ⟨w, rest⟩ := found
        simp only [readAt, hread, Prod.mk.injEq, Except.ok.injEq] at h
        obtain ⟨rfl, hk⟩ := h
        obtain ⟨p, hsplit, hp⟩ := read_eq_ok_iff.mp hread
        refine ⟨p, rest, hsplit, ?_, hp⟩
        rw [hsplit, List.length_append] at hk
        omega
  · rintro ⟨p, rest, hsplit, rfl, hp⟩
    have hread : read (b.drop pos) = .ok (v, rest) := hsplit ▸ hp.read_append rest
    have hlength : (b.drop pos).length = p.length + rest.length := by
      rw [hsplit, List.length_append]
    simp only [readAt, hread, hlength, Nat.add_sub_cancel]

/-- Where no varint stands, reading fails and reports the position. -/
lemma readAt_of_not_standsAt {b : Bytes} {pos : ℕ} (h : ¬ ∃ v k, StandsAt b pos k v) :
    ∃ next, readAt b pos = (.error (.truncatedVarint pos), next) := by
  cases hread : read (b.drop pos) with
  | error found =>
      exact ⟨pos + ((b.drop pos).length - found.2.length), by simp only [readAt, hread]⟩
  | ok found =>
      have hat : readAt b pos = (.ok found.1, pos + ((b.drop pos).length - found.2.length)) := by
        simp only [readAt, hread]
      exact absurd ⟨_, _, readAt_eq_ok_iff.mp hat⟩ h

/-- From the bytes behind a position a source reads what is read at the position. -/
lemma readVarint_drop_iff {b : Bytes} {pos : ℕ} {fault : Option SourceFault} {v : UInt64}
    {after : Source} :
    Source.readVarint ⟨b.drop pos, fault⟩ = .ok (v, after) ↔
      ∃ k, readAt b pos = (.ok v, pos + k) ∧ after = ⟨b.drop (pos + k), fault⟩ := by
  simp only [Source.readVarint_eq_ok_iff, readAt_eq_ok_iff, standsAt_iff, read_eq_ok_iff]
  have hbehind : ∀ p rest, b.drop pos = p ++ rest → b.drop (pos + p.length) = rest := by
    intro p rest hsplit
    rw [← List.drop_drop, hsplit, List.drop_left]
  constructor
  · rintro ⟨rest, ⟨p, hsplit, hp⟩, rfl⟩
    exact ⟨p.length, ⟨p, rest, hsplit, rfl, hp⟩, by rw [hbehind p rest hsplit]⟩
  · rintro ⟨k, ⟨p, rest, hsplit, rfl, hp⟩, rfl⟩
    exact ⟨rest, ⟨p, hsplit, hp⟩, by rw [hbehind p rest hsplit]⟩

/-- A varint that is read at a position takes no fewer bytes than the number written. -/
lemma length_write_le_of_readAt {b : Bytes} {pos k : ℕ} {v : UInt64}
    (h : readAt b pos = (.ok v, pos + k)) : (write v).length ≤ k := by
  obtain ⟨p, rest, -, rfl, hp⟩ := standsAt_iff.mp (readAt_eq_ok_iff.mp h)
  have hread := hp.read_append []
  rw [List.append_nil] at hread
  simpa using length_write_le_of_read hread

/-- What was written between other bytes is read there. -/
lemma readAt_write (front : Bytes) (v : UInt64) (rest : Bytes) :
    readAt (front ++ write v ++ rest) front.length = (.ok v, front.length + (write v).length) := by
  have hpresent : (front ++ write v ++ rest).drop front.length = write v ++ rest := by
    rw [List.append_assoc, List.drop_left]
  simp only [readAt, hpresent, read_write, List.length_append, Nat.add_sub_cancel]

/-! ### Runs -/

lemma lt_of_readAt {b : Bytes} {pos next : ℕ} {v : UInt64} (h : readAt b pos = (.ok v, next)) :
    pos < next := by
  cases hread : read (b.drop pos) with
  | error found => simp only [readAt, hread, Prod.mk.injEq, reduceCtorEq, false_and] at h
  | ok found =>
      have hlt := length_lt_of_read hread
      simp only [readAt, hread, Prod.mk.injEq] at h
      omega

/-- Reads varints one after the other from a position to the end, behind those that were read. -/
def readRun (b : Bytes) (pos : ℕ) (values : List UInt64) : Except WireError (List UInt64) :=
  if pos < b.length then
    match _h : readAt b pos with
    | (.error e, _) => .error e
    | (.ok v, next) => readRun b next (values ++ [v])
  else .ok values
termination_by b.length - pos
decreasing_by
  have := lt_of_readAt _h
  omega

lemma readRun_of_readAt {b : Bytes} {pos next : ℕ} {v : UInt64} (hpos : pos < b.length)
    (h : readAt b pos = (.ok v, next)) (values : List UInt64) :
    readRun b pos values = readRun b next (values ++ [v]) := by
  rw [readRun, if_pos hpos]
  split
  · next h' => simp [h] at h'
  · next h' =>
    cases h.symm.trans h'
    rfl

lemma readRun_of_readAt_error {b : Bytes} {pos next : ℕ} {e : WireError} (hpos : pos < b.length)
    (h : readAt b pos = (.error e, next)) (values : List UInt64) :
    readRun b pos values = .error e := by
  rw [readRun, if_pos hpos]
  split
  · next h' =>
    cases h.symm.trans h'
    rfl
  · next h' => simp [h] at h'

lemma readRun_of_le {b : Bytes} {pos : ℕ} (hpos : b.length ≤ pos) (values : List UInt64) :
    readRun b pos values = .ok values := by
  rw [readRun, if_neg (Nat.not_lt.mpr hpos)]

/-- From a position on, what is behind it is split into varints. The fault is reported at the place
where the first bytes begin that are none. -/
lemma readRun_eq {b : Bytes} {pos : ℕ} (hpos : pos ≤ b.length) (values : List UInt64) :
    readRun b pos values =
      match split (b.drop pos) with
      | .ok vs => .ok (values ++ vs)
      | .error tail => .error (.truncatedVarint (b.length - tail.length)) := by
  induction hn : b.length - pos using Nat.strong_induction_on generalizing pos values with
  | _ n ih =>
      rcases Nat.lt_or_ge pos b.length with hlt | hend
      · have hne : b.drop pos ≠ [] := mt List.drop_eq_nil_iff.mp (Nat.not_le.mpr hlt)
        cases hread : read (b.drop pos) with
        | error found =>
            obtain ⟨fault, left⟩ := found
            rw [readRun_of_readAt_error hlt (readAt_of_read_error hpos hread),
              split_of_read_error hne hread]
            simp only [List.length_drop, Nat.sub_sub_self hpos]
        | ok found =>
            obtain ⟨v, rest⟩ := found
            have hshort := length_lt_of_read hread
            have hrest := List.suffix_iff_eq_drop.mp
              ((suffix_of_read hread).trans (List.drop_suffix pos b))
            rw [List.length_drop] at hshort
            rw [readRun_of_readAt hlt (readAt_of_read hpos hread),
              ih _ (by omega) (by omega) _ rfl, ← hrest, split_of_read hread]
            cases split rest with
            | ok vs => simp [Except.map]
            | error tail => rfl
      · rw [readRun_of_le hend, List.drop_eq_nil_iff.mpr hend, split]
        simp

/-- **A packed run** is read varint by varint. -/
theorem readRun_eq_readPacked (b : Bytes) : readRun b 0 [] = readPacked b := by
  rw [readRun_eq (Nat.zero_le _), List.drop_zero, readPacked]
  cases split b <;> rfl

/-- Varints that were written one after the other are read as a packed run. -/
lemma readPacked_write (vs : List UInt64) : readPacked (vs.flatMap write) = .ok vs := by
  have hsplit : split (vs.flatMap write) = .ok vs := by
    induction vs with
    | nil => simp [split]
    | cons v vs ih =>
        rw [List.flatMap_cons, split_of_read (read_write v _), ih]
        rfl
  rw [readPacked, hsplit]

/-- **The two readers and the writer agree.** Both readers and the writer move groups by shifting.
At a position, a varint is read if and only if one to ten bytes stand there of which the last and no
other has its top bit clear, as the number that their groups make up modulo `2 ^ 64`; otherwise the
position is reported. From a source with the bytes behind the position, the same is read and as many
bytes are consumed. A number that was written is read back by both, with whatever bytes around it,
and no bytes that are read as the number are fewer. Numbers written one after the other are read as
a packed run. -/
theorem readers_and_writer_agree :
    ((∀ b pos, readShiftingAt b pos pos 0 0 = readAt b pos) ∧
      (∀ s : Source, s.readShifting 0 0 = s.readVarint) ∧
      (∀ out v, writeShifting out v = out ++ write v) ∧
      ∀ b, readRun b 0 [] = readPacked b) ∧
    (∀ b pos,
      (∀ v k, readAt b pos = (.ok v, pos + k) ↔ StandsAt b pos k v) ∧
      ((¬ ∃ v k, StandsAt b pos k v) →
        ∃ next, readAt b pos = (.error (.truncatedVarint pos), next)) ∧
      ∀ fault v after, Source.readVarint ⟨b.drop pos, fault⟩ = .ok (v, after) ↔
        ∃ k, readAt b pos = (.ok v, pos + k) ∧ after = ⟨b.drop (pos + k), fault⟩) ∧
    (∀ n,
      (∀ front rest, readAt (front ++ write n ++ rest) front.length =
        (.ok n, front.length + (write n).length)) ∧
      (∀ rest fault, Source.readVarint ⟨write n ++ rest, fault⟩ = .ok (n, ⟨rest, fault⟩)) ∧
      ∀ b pos k, readAt b pos = (.ok n, pos + k) → (write n).length ≤ k) ∧
    ∀ vs : List UInt64, readPacked (vs.flatMap write) = .ok vs :=
  ⟨⟨readShiftingAt_eq_readAt, Source.readShifting_eq_readVarint, writeShifting_eq,
      readRun_eq_readPacked⟩,
    fun _ _ => ⟨fun _ _ => readAt_eq_ok_iff, readAt_of_not_standsAt,
      fun _ _ _ => readVarint_drop_iff⟩,
    fun n => ⟨fun front rest => readAt_write front n rest,
      fun rest _ => Source.readVarint_eq_ok_iff.mpr ⟨rest, read_write n rest, rfl⟩,
      fun _ _ _ => length_write_le_of_readAt⟩,
    readPacked_write⟩

end Varint

end AtomTimeline
