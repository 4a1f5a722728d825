import Mathlib.Tactic
import AtomTimeline.Wire.Varint

/-!
Signed integers in the words of the wire.

* `Zigzag.ofInt` numbers the integers in zig-zag order; `Zigzag.toInt_ofInt`: reading undoes it.
  `Zigzag.read64_ofInt` and `Zigzag.read32_ofInt` say so of words.
* `toInt32_extended`: the low half of a sign-extended word is the integer that was extended.
-/

namespace AtomTimeline

namespace Zigzag

/-- The place of an integer in the order 0, -1, 1, -2, 2, … -/
def ofInt (z : ℤ) : ℕ := if 0 ≤ z then 2 * z.toNat else 2 * (-z).toNat - 1

theorem toInt_ofInt (z : ℤ) : toInt (ofInt z) = z := by
  rw [toInt, ofInt, Int.ofNat_eq_natCast]
  by_cases hz : 0 ≤ z
  · rw [if_pos hz, if_pos (by omega)]
    omega
  · rw [if_neg hz, if_neg (by omega)]
    omega

/-- An integer of `n + 1` bits has a place of as many bits. -/
lemma ofInt_lt {z : ℤ} {n : ℕ} (hlow : -2 ^ n ≤ z) (hhigh : z < 2 ^ n) : ofInt z < 2 ^ (n + 1) := by
  rw [ofInt, pow_succ]
  by_cases hz : 0 ≤ z
  · rw [if_pos hz]
    have : z.toNat < 2 ^ n := by
      zify
      rwa [Int.toNat_of_nonneg hz]
    omega
  · rw [if_neg hz]
    have : (-z).toNat ≤ 2 ^ n := by
      zify
      rw [Int.toNat_of_nonneg (by omega)]
      omega
    omega

/-- The place of a 64-bit integer reads back as the integer. -/
theorem read64_ofInt (v : Int64) : read64 (UInt64.ofNat (ofInt v.toInt)) = v := by
  have hlt : ofInt v.toInt < 2 ^ 64 := ofInt_lt (Int64.le_toInt v) (Int64.toInt_lt v)
  rw [read64, UInt64.toNat_ofNat_of_lt' hlt, toInt_ofInt, Int64.ofInt_toInt]

/-- The place of a 32-bit integer reads back as the integer. -/
theorem read32_ofInt (v : Int32) : read32 (UInt64.ofNat (ofInt v.toInt)) = v.toInt64 := by
  have hlt : ofInt v.toInt < 2 ^ 32 := ofInt_lt (Int32.le_toInt v) (Int32.toInt_lt v)
  rw [read32, UInt64.toNat_toUInt32, UInt64.toNat_ofNat_of_lt' (show _ < 2 ^ 64 by omega),
    Nat.mod_eq_of_lt hlt, toInt_ofInt, ← Int32.toInt_toInt64, Int64.ofInt_toInt]

end Zigzag

/-- The low half of a sign-extended word is what was extended. -/
theorem toInt32_extended (v : Int32) : v.toInt64.toUInt64.toUInt32.toInt32 = v := by
  refine Int32.toBitVec_inj.mp ?_
  have hlow : (v.toBitVec.signExtend 64).setWidth 32 = v.toBitVec := by
    ext i hi
    rw [BitVec.getElem_setWidth, BitVec.getLsbD_signExtend, if_pos hi, decide_eq_true (by omega),
      Bool.true_and, BitVec.getLsbD_eq_getElem hi]
  exact hlow

end AtomTimeline
