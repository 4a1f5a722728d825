import Mathlib.Tactic
import AtomTimeline.Text.Utf8

/-!
The bytes of a text read back as the text.

* `Utf8.decodeFrom_encodeChar`: the octets of one character are read as that character, whatever
  follows them. What the first octet says of the second is what keeps out the longer forms, the
  surrogates and the numbers too large.
* `Utf8.decode_encode`: so the parts of a text's bytes are the text's characters, and
  `Utf8.lossyText_encode`: nothing is replaced.
-/

namespace AtomTimeline

namespace Utf8

/-! ### Octets one at a time -/

lemma decodeFrom_cons (begun : Option Partial) {x : ℕ} (hx : x < 256) (b : Bytes) :
    decodeFrom begun (UInt8.ofNat x :: b) =
      (step begun x).1 ++ decodeFrom (step begun x).2 b := by
  rw [decodeFrom, UInt8.toNat_ofNat_of_lt' hx]

/-- The octet that ends a character. -/
lemma decodeFrom_last {bits low high x : ℕ} (hlow : low ≤ x) (hhigh : x ≤ high) (hx : x < 256)
    (b : Bytes) :
    decodeFrom (some ⟨bits, 1, low, high⟩) (UInt8.ofNat x :: b) =
      some (Char.ofNat (bits * 64 + (x - 0x80))) :: decodeFrom none b := by
  have hstep : step (some ⟨bits, 1, low, high⟩) x =
      ([some (Char.ofNat (bits * 64 + (x - 0x80)))], none) := by
    rw [step, if_pos ⟨hlow, hhigh⟩, if_pos rfl]
  rw [decodeFrom_cons _ hx, hstep, List.singleton_append]

/-- An octet within a character. -/
lemma decodeFrom_more {bits owed low high x : ℕ} (hlow : low ≤ x) (hhigh : x ≤ high) (hx : x < 256)
    (b : Bytes) :
    decodeFrom (some ⟨bits, owed + 2, low, high⟩) (UInt8.ofNat x :: b) =
      decodeFrom (some ⟨bits * 64 + (x - 0x80), owed + 1, 0x80, 0xBF⟩) b := by
  have hstep : step (some ⟨bits, owed + 2, low, high⟩) x =
      ([], some ⟨bits * 64 + (x - 0x80), owed + 1, 0x80, 0xBF⟩) := by
    rw [step, if_pos ⟨hlow, hhigh⟩, if_neg (show owed + 2 ≠ 1 by omega)]
    rfl
  rw [decodeFrom_cons _ hx, hstep, List.nil_append]

/-- An octet that is a character. -/
lemma decodeFrom_one {x : ℕ} (hx : x < 0x80) (b : Bytes) :
    decodeFrom none (UInt8.ofNat x :: b) = some (Char.ofNat x) :: decodeFrom none b := by
  rw [decodeFrom_cons _ (show x < 256 by omega), step, start, if_pos hx, List.singleton_append]

/-- The first octet of two. -/
lemma decodeFrom_two {x : ℕ} (hlow : 0xC2 ≤ x) (hhigh : x < 0xE0) (b : Bytes) :
    decodeFrom none (UInt8.ofNat x :: b) = decodeFrom (some ⟨x - 0xC0, 1, 0x80, 0xBF⟩) b := by
  rw [decodeFrom_cons _ (show x < 256 by omega), step, start, if_neg (show ¬ x < 0x80 by omega),
    if_neg (show ¬ x < 0xC2 by omega), if_pos hhigh, List.nil_append]

/-- The first octet of three. -/
lemma decodeFrom_three {x : ℕ} (hlow : 0xE0 ≤ x) (hhigh : x < 0xF0) (b : Bytes) :
    decodeFrom none (UInt8.ofNat x :: b) =
      decodeFrom (some ⟨x - 0xE0, 2, if x = 0xE0 then 0xA0 else 0x80,
        if x = 0xED then 0x9F else 0xBF⟩) b := by
  rw [decodeFrom_cons _ (show x < 256 by omega), step, start, if_neg (show ¬ x < 0x80 by omega),
    if_neg (show ¬ x < 0xC2 by omega), if_neg (show ¬ x < 0xE0 by omega), if_pos hhigh,
    List.nil_append]

/-- The first octet of four. -/
lemma decodeFrom_four {x : ℕ} (hlow : 0xF0 ≤ x) (hhigh : x < 0xF5) (b : Bytes) :
    decodeFrom none (UInt8.ofNat x :: b) =
      decodeFrom (some ⟨x - 0xF0, 3, if x = 0xF0 then 0x90 else 0x80,
        if x = 0xF4 then 0x8F else 0xBF⟩) b := by
  rw [decodeFrom_cons _ (show x < 256 by omega), step, start, if_neg (show ¬ x < 0x80 by omega),
    if_neg (show ¬ x < 0xC2 by omega), if_neg (show ¬ x < 0xE0 by omega),
    if_neg (show ¬ x < 0xF0 by omega), if_pos hhigh, List.nil_append]

/-! ### Characters -/

/-- **The octets of a character** are read as that character. -/
theorem decodeFrom_encodeChar (c : Char) (b : Bytes) :
    decodeFrom none (String.utf8EncodeChar c ++ b) = some c :: decodeFrom none b := by
  obtain ⟨v, hv⟩ : ∃ v, c.val.toNat = v := ⟨_, rfl⟩
  have hc : Char.ofNat v = c := by
    rw [← hv]
    exact Char.ofNat_toNat c
  have hvalid : v < 0xD800 ∨ 0xDFFF < v ∧ v < 0x110000 := by
    rw [← hv]
    exact c.valid
  rw [String.utf8EncodeChar, hv]
  by_cases h₁ : v ≤ 0x7F
  · rw [if_pos h₁, List.singleton_append, decodeFrom_one (by omega), hc]
  rw [if_neg h₁]
  by_cases h₂ : v ≤ 0x7FF
  · rw [if_pos h₂, List.cons_append, List.cons_append, List.nil_append,
      decodeFrom_two (by omega) (by omega), decodeFrom_last (by omega) (by omega) (by omega)]
    rw [show (v / 64 % 0x20 + 0xC0 - 0xC0) * 64 + (v % 0x40 + 0x80 - 0x80) = v by omega, hc]
  rw [if_neg h₂]
  by_cases h₃ : v ≤ 0xFFFF
  · -- the bounds of the second octet leave out what fits two octets, and the surrogates
    have hlow : (if v / 4096 % 0x10 + 0xE0 = 0xE0 then 0xA0 else 0x80) ≤ v / 64 % 0x40 + 0x80 := by
      split <;> omega
    have hhigh : v / 64 % 0x40 + 0x80 ≤ if v / 4096 % 0x10 + 0xE0 = 0xED then 0x9F else 0xBF := by
      split <;> omega
    rw [if_pos h₃, List.cons_append, List.cons_append, List.cons_append, List.nil_append,
      decodeFrom_three (by omega) (by omega), decodeFrom_more hlow hhigh (by omega),
      decodeFrom_last (by omega) (by omega) (by omega)]
    rw [show ((v / 4096 % 0x10 + 0xE0 - 0xE0) * 64 + (v / 64 % 0x40 + 0x80 - 0x80)) * 64 +
      (v % 0x40 + 0x80 - 0x80) = v by omega, hc]
  · -- the bounds of the second octet leave out what fits three octets, and what is too large
    have hlow : (if v / 262144 % 0x08 + 0xF0 = 0xF0 then 0x90 else 0x80) ≤
        v / 4096 % 0x40 + 0x80 := by
      split <;> omega
    have hhigh : v / 4096 % 0x40 + 0x80 ≤
        if v / 262144 % 0x08 + 0xF0 = 0xF4 then 0x8F else 0xBF := by
      split <;> omega
    rw [if_neg h₃, List.cons_append, List.cons_append, List.cons_append, List.cons_append,
      List.nil_append, decodeFrom_four (by omega) (by omega),
      decodeFrom_more hlow hhigh (by omega), decodeFrom_more (by omega) (by omega) (by omega),
      decodeFrom_last (by omega) (by omega) (by omega)]
    rw [show (((v / 262144 % 0x08 + 0xF0 - 0xF0) * 64 + (v / 4096 % 0x40 + 0x80 - 0x80)) * 64 +
      (v / 64 % 0x40 + 0x80 - 0x80)) * 64 + (v % 0x40 + 0x80 - 0x80) = v by omega, hc]

/-! ### Texts -/

/-- The bytes of an array from a position on, behind those listed before it. -/
lemma toList_loop_eq (b : ByteArray) (n : ℕ) : ∀ i before, b.size - i = n →
    ByteArray.toList.loop b i before = before.reverse ++ b.data.toList.drop i := by
  induction n with
  | zero =>
      intro i before hn
      have hend : b.data.toList.length ≤ i := by
        rw [Array.length_toList]
        exact Nat.sub_eq_zero_iff_le.mp hn
      rw [ByteArray.toList.loop, if_neg (show ¬ i < b.size by omega), List.drop_eq_nil_of_le hend,
        List.append_nil]
  | succ n ih =>
      intro i before hn
      have hlt : i < b.size := by omega
      have hmem : i < b.data.toList.length := by rwa [Array.length_toList]
      have hget : b.get! i = b.data.toList[i] := by
        simp [ByteArray.get!, hlt]
      rw [ByteArray.toList.loop, if_pos hlt, ih (i + 1) _ (by omega), List.reverse_cons,
        List.append_assoc, List.singleton_append, hget, ← List.drop_eq_getElem_cons hmem]

/-- The bytes of a text are those of its characters in order. -/
lemma encode_eq (s : String) : encode s = s.toList.flatMap String.utf8EncodeChar := by
  have hbytes : encode s = s.toByteArray.data.toList := by
    rw [encode, String.toUTF8_eq_toByteArray, ByteArray.toList, toList_loop_eq _ _ 0 [] rfl]
    rfl
  rw [hbytes, ← String.ofList_toList (s := s), String.toByteArray_ofList, List.utf8Encode,
    List.toList_data_toByteArray, String.ofList_toList]

/-- The bytes of a text are read as its characters. -/
theorem decode_encode (s : String) : decode (encode s) = s.toList.map some := by
  rw [decode, encode_eq]
  induction s.toList with
  | nil => rfl
  | cons c cs ih => rw [List.flatMap_cons, decodeFrom_encodeChar, ih, List.map_cons]

/-- **The bytes of a text** read back as the text. -/
theorem lossyText_encode (s : String) : lossyText (encode s) = s := by
  rw [lossyText, decode_encode, List.map_map]
  calc String.ofList (s.toList.map ((fun c => c.getD '\uFFFD') ∘ some))
      = String.ofList (s.toList.map id) := rfl
    _ = s := by rw [List.map_id, String.ofList_toList]

end Utf8

end AtomTimeline
