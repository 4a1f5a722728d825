import Mathlib.Tactic
import AtomTimeline.Wire.Reader

/-!
Writing and reading on the wire.

* `Varint.read_write`, `FieldValue.read_write` and `Field.read_write`: what was written reads back,
  whatever bytes follow it. A length-delimited value must be short enough for its length to be
  written (`FieldValue.Fits`).
* `scan_writeFields`: written fields are scanned back, and the scan ends cleanly.
* `Field.length_write_le_of_read`: a field that was read takes, when it is written, no more bytes
  than were read. So what fits into a message still fits after it was taken out and written again.
-/

namespace AtomTimeline

/-! ### Bytes of a given number -/

/-- A little-endian number reads back up to multiples of what its bytes hold. -/
theorem Bytes.toNatLE_ofNatLE (width n : ℕ) : toNatLE (ofNatLE width n) = n % 256 ^ width := by
  induction width generalizing n with
  | zero => simp [ofNatLE, toNatLE, Nat.mod_one]
  | succ width ih =>
      have hdigit : (UInt8.ofNat (n % 256)).toNat = n % 256 := by simp
      rw [ofNatLE, toNatLE, ih, hdigit, Nat.pow_succ, Nat.mul_comm (256 ^ width) 256, Nat.mod_mul]

/-- Bytes of the length asked for are split off what follows them. -/
lemma Bytes.splitFront?_append {n : ℕ} {b : Bytes} (h : b.length = n) (rest : Bytes) :
    splitFront? n (b ++ rest) = some (b, rest) :=
  splitFront?_eq_some_iff.mpr ⟨rfl, h⟩

/-! ### Varints -/

namespace Varint

lemma groups_of_lt {n : ℕ} (h : n < 128) : groups n = [UInt8.ofNat n] := by
  rw [groups, if_pos h]

lemma groups_of_le {n : ℕ} (h : 128 ≤ n) :
    groups n = UInt8.ofNat (n % 128 + 128) :: groups (n / 128) := by
  rw [groups, if_neg (by omega)]

/-- An unmarked group ends the number. -/
lemma readGroups_last {n : ℕ} (h : n < 128) (limit : ℕ) (rest : Bytes) :
    readGroups (limit + 1) (UInt8.ofNat n :: rest) = .ok (n, rest) := by
  have hval : (UInt8.ofNat n).toNat = n := UInt8.toNat_ofNat_of_lt (show _ < 256 by omega)
  have hx : UInt8.ofNat n < 128 := by
    rw [UInt8.lt_iff_toNat_lt, hval]
    exact h
  rw [readGroups, if_pos hx, hval]

/-- A marked group stands in front of the groups that follow it. -/
lemma readGroups_marked {n k limit : ℕ} {rest after : Bytes} (h : n < 128)
    (hk : readGroups limit rest = .ok (k, after)) :
    readGroups (limit + 1) (UInt8.ofNat (n + 128) :: rest) = .ok (n + 128 * k, after) := by
  have hval : (UInt8.ofNat (n + 128)).toNat = n + 128 :=
    UInt8.toNat_ofNat_of_lt (show _ < 256 by omega)
  have hx : ¬ UInt8.ofNat (n + 128) < 128 := by
    rw [UInt8.lt_iff_toNat_lt, hval]
    simp
  rw [readGroups, if_neg hx, hk, hval]
  simp only [Nat.add_mod_right, Nat.mod_eq_of_lt h]

/-- A number below `128 ^ (limit + 1)` is read back in at most `limit + 1` groups. -/
lemma readGroups_groups {limit n : ℕ} (h : n < 128 ^ (limit + 1)) (rest : Bytes) :
    readGroups (limit + 1) (groups n ++ rest) = .ok (n, rest) := by
  induction limit generalizing n with
  | zero =>
      rw [groups_of_lt (by omega), List.singleton_append, readGroups_last (by omega)]
  | succ limit ih =>
      by_cases hn : n < 128
      · rw [groups_of_lt hn, List.singleton_append, readGroups_last hn]
      · have hq : n / 128 < 128 ^ (limit + 1) := by
          rw [pow_succ] at h
          exact Nat.div_lt_of_lt_mul (by omega)
        rw [groups_of_le (by omega), List.cons_append,
          readGroups_marked (Nat.mod_lt n (by omega)) (ih hq), Nat.mod_add_div]

/-- A written varint reads back. -/
theorem read_write (v : UInt64) (rest : Bytes) : read (write v ++ rest) = .ok (v, rest) := by
  have hv : v.toNat < 128 ^ (9 + 1) := lt_of_lt_of_le v.toNat_lt (by decide)
  rw [read, write, maxLength, readGroups_groups hv]
  simp

lemma groups_ne_nil (n : ℕ) : groups n ≠ [] := by
  rw [groups]
  split <;> simp

/-- A smaller number takes no more groups. -/
lemma length_groups_le {m n : ℕ} (h : m ≤ n) : (groups m).length ≤ (groups n).length := by
  induction n using Nat.strong_induction_on generalizing m with
  | _ n ih =>
      by_cases hm : m < 128
      · rw [groups_of_lt hm, List.length_singleton]
        exact List.length_pos_iff.mpr (groups_ne_nil n)
      · rw [groups_of_le (by omega : 128 ≤ m), groups_of_le (by omega : 128 ≤ n)]
        have hq := ih (n / 128) (by omega) (Nat.div_le_div_right (c := 128) h)
        simpa using hq

/-- A varint is written in no more bytes than one may take. -/
lemma length_write_le (v : UInt64) : (write v).length ≤ maxLength := by
  have hgreatest : (groups (2 ^ 64 - 1)).length = maxLength := by simp [groups, maxLength]
  rw [write, ← hgreatest]
  exact length_groups_le (Nat.le_pred_of_lt v.toNat_lt)

/-- The number read takes no more groups than were read. -/
lemma length_groups_le_of_readGroups {limit n : ℕ} {b rest : Bytes}
    (h : readGroups limit b = .ok (n, rest)) : (groups n).length + rest.length ≤ b.length := by
  induction limit generalizing b n with
  | zero => simp [readGroups] at h
  | succ limit ih =>
      cases b with
      | nil => simp [readGroups] at h
      | cons x b =>
          simp only [readGroups] at h
          split at h
          · next hx =>
            cases h
            rw [groups_of_lt (by simpa [UInt8.lt_iff_toNat_lt] using hx)]
            simp
            omega
          · split at h
            · next k after hk =>
              cases h
              have hlen := ih hk
              have hle : (groups (x.toNat % 128 + 128 * k)).length ≤ (groups k).length + 1 := by
                by_cases hs : x.toNat % 128 + 128 * k < 128
                · rw [groups_of_lt hs]
                  simp
                · rw [groups_of_le (by omega),
                    show (x.toNat % 128 + 128 * k) / 128 = k from by omega]
                  simp
              simp only [List.length_cons]
              omega
            · cases h

/-- A varint that was read takes no more bytes when it is written. -/
lemma length_write_le_of_read {b rest : Bytes} {v : UInt64} (h : read b = .ok (v, rest)) :
    (write v).length + rest.length ≤ b.length := by
  simp only [read] at h
  split at h
  · next n after hn =>
    cases h
    have hmod : (UInt64.ofNat n).toNat ≤ n := by
      rw [UInt64.toNat_ofNat']
      exact Nat.mod_le _ _
    have h1 := length_groups_le hmod
    have h2 := length_groups_le_of_readGroups hn
    rw [write]
    omega
  · cases h

end Varint

/-! ### Fields -/

lemma WireType.code_lt (w : WireType) : w.code < 8 := by
  cases w <;> decide

/-- A number that stands for a wire type is that of the wire type. -/
lemma WireType.code_of_ofCode? {code : ℕ} {kind : WireType} (h : ofCode? code = some kind) :
    kind.code = code := by
  unfold ofCode? at h
  split at h <;> cases h <;> rfl

/-- The length of the value can be written: it is below 2^64, as that of every value read is. -/
def FieldValue.Fits (v : FieldValue) : Prop := v.bytes.length < 2 ^ 64

/-- The field can be written so that it reads back. -/
structure Field.Fits (f : Field) : Prop where
  id_ne_zero : f.id ≠ 0
  value : f.value.Fits

namespace FieldValue

/-- A written value reads back. -/
theorem read_write {v : FieldValue} (h : v.Fits) (rest : Bytes) :
    read v.wireType (v.write ++ rest) = .ok (v, rest) := by
  cases v with
  | varint v => simp only [wireType, write, read, Varint.read_write]
  | fixed64 v =>
      have hs := Bytes.splitFront?_append (Bytes.length_ofNatLE 8 v.toNat) rest
      have hv : v.toNat % 256 ^ 8 = v.toNat := Nat.mod_eq_of_lt v.toNat_lt
      simp only [wireType, write, read, hs, Bytes.toNatLE_ofNatLE, hv, UInt64.ofNat_toNat]
  | lengthDelimited b =>
      have hlen : (UInt64.ofNat b.length).toNat = b.length := UInt64.toNat_ofNat_of_lt h
      have hs := Bytes.splitFront?_append (b := b) rfl rest
      simp only [wireType, write, read, List.append_assoc, Varint.read_write, hlen, hs]
  | fixed32 v =>
      have hs := Bytes.splitFront?_append (Bytes.length_ofNatLE 4 v.toNat) rest
      have hv : v.toNat % 256 ^ 4 = v.toNat := Nat.mod_eq_of_lt v.toNat_lt
      simp only [wireType, write, read, hs, Bytes.toNatLE_ofNatLE, hv, UInt32.ofNat_toNat]

/-- A value that was read takes no more bytes when it is written, and can be written. -/
lemma length_write_le_of_read {kind : WireType} {b rest : Bytes} {v : FieldValue}
    (h : read kind b = .ok (v, rest)) :
    v.write.length + rest.length ≤ b.length ∧ v.Fits ∧ v.wireType = kind := by
  cases kind with
  | varint =>
      simp only [read] at h
      split at h
      · next hv =>
        cases h
        exact ⟨Varint.length_write_le_of_read hv, by simp [Fits, bytes], rfl⟩
      · cases h
  | fixed64 =>
      simp only [read] at h
      split at h
      · next hs =>
        cases h
        obtain ⟨rfl, hlen⟩ := Bytes.splitFront?_eq_some_iff.mp hs
        exact ⟨by simp [write, hlen], by simp [Fits, bytes], rfl⟩
      · cases h
  | lengthDelimited =>
      simp only [read] at h
      split at h
      · cases h
      · next length after hv =>
        split at h
        · next content behind hs =>
          cases h
          obtain ⟨rfl, hlen⟩ := Bytes.splitFront?_eq_some_iff.mp hs
          have hfits : content.length < 2 ^ 64 := hlen ▸ length.toNat_lt
          have hw := Varint.length_write_le_of_read hv
          have hback : UInt64.ofNat content.length = length := by rw [hlen, UInt64.ofNat_toNat]
          refine ⟨?_, hfits, rfl⟩
          simp only [write, hback, List.length_append] at hw ⊢
          omega
        · cases h
  | fixed32 =>
      simp only [read] at h
      split at h
      · next hs =>
        cases h
        obtain ⟨rfl, hlen⟩ := Bytes.splitFront?_eq_some_iff.mp hs
        exact ⟨by simp [write, hlen], by simp [Fits, bytes], rfl⟩
      · cases h

end FieldValue

namespace Field

/-- A written field reads back. -/
theorem read_write {f : Field} (h : f.Fits) (rest : Bytes) :
    read (f.write ++ rest) = .ok (f, rest) := by
  obtain ⟨id, value⟩ := f
  have hid : 0 < id.toNat := by
    have := h.id_ne_zero
    rw [Nat.pos_iff_ne_zero]
    exact fun h0 => this (UInt32.toNat_inj.mp h0)
  have hcode := value.wireType.code_lt
  have htag : (UInt64.ofNat (8 * id.toNat + value.wireType.code)).toNat =
      8 * id.toNat + value.wireType.code :=
    UInt64.toNat_ofNat_of_lt (show _ < 2 ^ 64 by have := id.toNat_lt; omega)
  have hdiv : (8 * id.toNat + value.wireType.code) / 8 = id.toNat := by omega
  have hmod : (8 * id.toNat + value.wireType.code) % 8 = value.wireType.code := by omega
  simp only [read, write, writeTag, List.append_assoc, Varint.read_write, htag, hdiv, hmod,
    WireType.ofCode?_code, FieldValue.read_write h.value, if_pos (And.intro hid id.toNat_lt),
    UInt32.ofNat_toNat]

/-- A field that was read takes no more bytes when it is written, and can be written. -/
lemma length_write_le_of_read {b rest : Bytes} {f : Field} (h : read b = .ok (f, rest)) :
    f.write.length + rest.length ≤ b.length ∧ f.Fits := by
  simp only [read] at h
  split at h
  · cases h
  · next tag after hv =>
    split at h
    · next hid =>
      split at h
      · cases h
      · next kind hkind =>
        split at h
        · next value behind hr =>
          cases h
          obtain ⟨hlen, hfits, rfl⟩ := FieldValue.length_write_le_of_read hr
          have hnum : (UInt32.ofNat (tag.toNat / 8)).toNat = tag.toNat / 8 :=
            UInt32.toNat_ofNat_of_lt hid.2
          refine ⟨?_, fun h0 => ?_, hfits⟩
          · have htag : 8 * (tag.toNat / 8) + value.wireType.code = tag.toNat := by
              have := WireType.code_of_ofCode? hkind
              omega
            have hw := Varint.length_write_le_of_read hv
            simp only [write, writeTag, hnum, htag, UInt64.ofNat_toNat, List.length_append]
            omega
          · simp only at h0
            rw [h0] at hnum
            have : (0 : UInt32).toNat = 0 := rfl
            omega
        · cases h
    · cases h

end Field

/-- What is within a field is no longer than the field written. -/
lemma Field.length_bytes_le_write (f : Field) : f.value.bytes.length ≤ f.write.length := by
  rw [Field.write, List.length_append]
  cases f.value <;> simp only [FieldValue.bytes, FieldValue.write, List.length_nil,
    List.length_append] <;> omega

/-! ### Scans -/

/-- A field written in front of bytes is the first one scanned. -/
lemma scan_write_append {f : Field} (h : f.Fits) (rest : Bytes) :
    scan (f.write ++ rest) = (scan rest).cons f :=
  scan_of_read (Field.read_write h rest)

/-- **Written fields are scanned back**, and the scan ends cleanly. -/
theorem scan_writeFields {fs : List Field} (h : ∀ f ∈ fs, f.Fits) :
    scan (writeFields fs) = ⟨fs, none⟩ := by
  induction fs with
  | nil => rw [writeFields, List.flatMap_nil, scan_nil]
  | cons f fs ih =>
      rw [writeFields, List.flatMap_cons, scan_write_append (h f (by simp)), ← writeFields,
        ih fun g hg => h g (by simp [hg])]
      rfl

/-- The induction that follows a scan: the end, a field and what is behind it, or a fault. -/
theorem scan_induction {P : Bytes → Prop} (nil : P [])
    (field : ∀ b rest f, Field.read b = .ok (f, rest) → P rest → P b)
    (fault : ∀ b left, b ≠ [] → Field.read b = .error left → P b) (b : Bytes) : P b := by
  induction hn : b.length using Nat.strong_induction_on generalizing b with
  | _ n ih =>
      by_cases hb : b = []
      · exact hb ▸ nil
      · cases hr : Field.read b with
        | error left => exact fault b left hb hr
        | ok found =>
            have hlt := Field.length_lt_of_read hr
            exact field b found.2 found.1 hr (ih _ (hn ▸ hlt) _ rfl)

/-- A scanned field can be written, in no more bytes than the message has. -/
lemma fits_of_mem_scan {b : Bytes} {f : Field} (h : f ∈ (scan b).fields) :
    f.Fits ∧ f.write.length ≤ b.length := by
  induction b using scan_induction with
  | nil => simp [scan_nil] at h
  | field b rest g hr ih =>
      obtain ⟨hlen, hfits⟩ := Field.length_write_le_of_read hr
      rw [scan_of_read hr, Scan.cons, List.mem_cons] at h
      rcases h with rfl | h
      · exact ⟨hfits, by omega⟩
      · exact ⟨(ih h).1, by have := (ih h).2; omega⟩
  | fault b left hb hr =>
      rw [scan_of_read_error hb hr] at h
      simp at h

end AtomTimeline
