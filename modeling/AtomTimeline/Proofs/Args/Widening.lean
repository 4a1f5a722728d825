import Mathlib.Tactic
import AtomTimeline.Args.Parse

/-!
Single-precision reals widened to double precision.

* `Magnitude.ofBits` reads the bits of a real without its sign: as a multiple of the smallest
  positive real of the format, as infinite, or as no number.
* `widenReal_exact`: widening keeps the sign and the magnitude. The smallest positive real of single
  precision, 2^-149, is 2^925 times that of double precision, 2^-1074.
-/

namespace AtomTimeline

/-- The size of a real. -/
inductive Magnitude where
  /-- So many times the smallest positive real. -/
  | multiple (units : ℕ)
  | infinite
  | noNumber
  deriving DecidableEq, Repr

namespace Magnitude

/-- The size of a real with such an exponent and fraction. -/
def ofParts (exponentBits fractionBits exponent fraction : ℕ) : Magnitude :=
  if exponent = 2 ^ exponentBits - 1 then
    if fraction = 0 then infinite else noNumber
  else if exponent = 0 then multiple fraction
  else multiple ((2 ^ fractionBits + fraction) * 2 ^ (exponent - 1))

/-- The size of a real with such bits. The fraction is lowest, the exponent next to it. -/
def ofBits (exponentBits fractionBits bits : ℕ) : Magnitude :=
  ofParts exponentBits fractionBits (bits / 2 ^ fractionBits % 2 ^ exponentBits)
    (bits % 2 ^ fractionBits)

/-- A size in units that go so many times into the old one. -/
def inUnits (times : ℕ) : Magnitude → Magnitude
  | multiple units => multiple (units * times)
  | infinite => infinite
  | noNumber => noNumber

/-- The parts are read back from where they were placed. What stands above them is not read. -/
lemma ofBits_placed {exponentBits fractionBits exponent fraction : ℕ} (above : ℕ)
    (he : exponent < 2 ^ exponentBits) (hf : fraction < 2 ^ fractionBits) :
    ofBits exponentBits fractionBits
        ((above * 2 ^ exponentBits + exponent) * 2 ^ fractionBits + fraction) =
      ofParts exponentBits fractionBits exponent fraction := by
  have hdiv : ((above * 2 ^ exponentBits + exponent) * 2 ^ fractionBits + fraction) /
      2 ^ fractionBits = above * 2 ^ exponentBits + exponent := by
    rw [Nat.add_comm, Nat.add_mul_div_right _ _ (by positivity), Nat.div_eq_of_lt hf,
      Nat.zero_add]
  rw [ofBits, hdiv, Nat.mul_add_mod', Nat.mod_eq_of_lt he, Nat.mul_add_mod', Nat.mod_eq_of_lt hf]

end Magnitude

/-- The highest bit of a subnormal becomes the one that is not written: the fraction behind it fits,
and is as many units as before. -/
lemma units_of_subnormal {fraction top : ℕ} (hle : 2 ^ top ≤ fraction)
    (hlt : fraction < 2 ^ (top + 1)) (htop : top ≤ 52) :
    (fraction - 2 ^ top) * 2 ^ (52 - top) < 2 ^ 52 ∧
      (2 ^ 52 + (fraction - 2 ^ top) * 2 ^ (52 - top)) * 2 ^ (top + 873) = fraction * 2 ^ 925 := by
  have hsplit : 2 ^ top * 2 ^ (52 - top) = 2 ^ 52 := by
    rw [← pow_add, Nat.add_sub_cancel' htop]
  have hexp : 52 - top + (top + 873) = 925 := by omega
  constructor
  · calc (fraction - 2 ^ top) * 2 ^ (52 - top)
        < 2 ^ top * 2 ^ (52 - top) := by
          refine Nat.mul_lt_mul_of_pos_right ?_ (by positivity)
          rw [pow_succ] at hlt
          omega
      _ = 2 ^ 52 := hsplit
  · calc (2 ^ 52 + (fraction - 2 ^ top) * 2 ^ (52 - top)) * 2 ^ (top + 873)
        = (2 ^ top + (fraction - 2 ^ top)) * (2 ^ (52 - top) * 2 ^ (top + 873)) := by
          rw [← hsplit, ← Nat.add_mul, Nat.mul_assoc]
      _ = fraction * 2 ^ 925 := by
          rw [← pow_add, hexp, Nat.add_sub_cancel' hle]

/-- A normal real is as many units as before. -/
lemma units_of_normal {exponent : ℕ} (hlow : exponent ≠ 0) (fraction : ℕ) :
    (2 ^ 52 + fraction * 2 ^ 29) * 2 ^ (exponent + 895) =
      (2 ^ 23 + fraction) * 2 ^ (exponent - 1) * 2 ^ 925 := by
  have hsum : 2 ^ 52 + fraction * 2 ^ 29 = (2 ^ 23 + fraction) * 2 ^ 29 := by ring
  have hexp : 29 + (exponent + 895) = exponent - 1 + 925 := by omega
  calc (2 ^ 52 + fraction * 2 ^ 29) * 2 ^ (exponent + 895)
      = (2 ^ 23 + fraction) * (2 ^ 29 * 2 ^ (exponent + 895)) := by
        rw [hsum, Nat.mul_assoc]
    _ = (2 ^ 23 + fraction) * (2 ^ (exponent - 1) * 2 ^ 925) := by
        rw [← pow_add, ← pow_add, hexp]
    _ = (2 ^ 23 + fraction) * 2 ^ (exponent - 1) * 2 ^ 925 := (mul_assoc _ _ _).symm

/-- The exponent and fraction of a widened real, given those of the real. -/
lemma exists_widened (exponent fraction : ℕ) (he : exponent < 2 ^ 8) (hf : fraction < 2 ^ 23) :
    ∃ wideExponent wideFraction, wideExponent < 2 ^ 11 ∧ wideFraction < 2 ^ 52 ∧
      (if exponent = 0xFF then 0x7FF * 2 ^ 52 + fraction * 2 ^ 29
        else if exponent = 0 then
          if fraction = 0 then 0
          else
            (fraction.log2 + 874) * 2 ^ 52 +
              (fraction - 2 ^ fraction.log2) * 2 ^ (52 - fraction.log2)
        else (exponent + 896) * 2 ^ 52 + fraction * 2 ^ 29) =
        wideExponent * 2 ^ 52 + wideFraction ∧
      Magnitude.ofParts 11 52 wideExponent wideFraction =
        (Magnitude.ofParts 8 23 exponent fraction).inUnits (2 ^ 925) := by
  by_cases htop : exponent = 0xFF
  · refine ⟨0x7FF, fraction * 2 ^ 29, by norm_num, by omega, if_pos htop, ?_⟩
    subst htop
    by_cases hzero : fraction = 0 <;> simp [Magnitude.ofParts, Magnitude.inUnits, hzero]
  rw [if_neg htop]
  by_cases hlow : exponent = 0
  · rw [if_pos hlow]
    by_cases hzero : fraction = 0
    · refine ⟨0, 0, by norm_num, by norm_num, if_pos hzero, ?_⟩
      rw [Magnitude.ofParts, if_neg (by norm_num), if_pos rfl, Magnitude.ofParts,
        if_neg (by omega), if_pos hlow, Magnitude.inUnits, hzero, Nat.zero_mul]
    · obtain ⟨top, hdef⟩ : ∃ top, fraction.log2 = top := ⟨_, rfl⟩
      have hle : 2 ^ top ≤ fraction := hdef ▸ Nat.log2_self_le hzero
      have hlt : fraction < 2 ^ (top + 1) := hdef ▸ Nat.lt_log2_self
      have htop22 : top ≤ 22 := by
        have : 2 ^ top < 2 ^ 23 := lt_of_le_of_lt hle hf
        have := (Nat.pow_lt_pow_iff_right (by norm_num)).mp this
        omega
      obtain ⟨hfraction, hunits⟩ := units_of_subnormal hle hlt (by omega)
      rw [if_neg hzero, hdef]
      refine ⟨top + 874, (fraction - 2 ^ top) * 2 ^ (52 - top), by omega, hfraction, rfl, ?_⟩
      rw [Magnitude.ofParts, if_neg (by omega), if_neg (by omega), Magnitude.ofParts,
        if_neg (by omega), if_pos hlow, Magnitude.inUnits, ← hunits]
      rfl
  · refine ⟨exponent + 896, fraction * 2 ^ 29, by omega, by omega, if_neg hlow, ?_⟩
    rw [Magnitude.ofParts, if_neg (by omega), if_neg (by omega), Magnitude.ofParts,
      if_neg (by omega), if_neg hlow, Magnitude.inUnits, ← units_of_normal hlow]
    rfl

/-- **Widening is exact**: it keeps the sign, and the magnitude whether finite, infinite or that of
no number. -/
theorem widenReal_exact (bits : UInt32) :
    (widenReal bits).toNat / 2 ^ 63 = bits.toNat / 2 ^ 31 ∧
      Magnitude.ofBits 11 52 (widenReal bits).toNat =
        (Magnitude.ofBits 8 23 bits.toNat).inUnits (2 ^ 925) := by
  obtain ⟨wideExponent, wideFraction, hexponent, hfraction, hwide, hmagnitude⟩ :=
    exists_widened (bits.toNat >>> 23 % 0x100) (bits.toNat % 0x800000) (by omega) (by omega)
  have hsign : bits.toNat >>> 31 = bits.toNat / 2 ^ 31 := Nat.shiftRight_eq_div_pow _ _
  have hlt : bits.toNat / 2 ^ 31 < 2 := by
    have := bits.toNat_lt
    omega
  have hbits : (widenReal bits).toNat =
      (bits.toNat / 2 ^ 31 * 2 ^ 11 + wideExponent) * 2 ^ 52 + wideFraction := by
    simp only [widenReal, Nat.shiftLeft_eq, Nat.one_mul, hwide, hsign]
    rw [UInt64.toNat_ofNat_of_lt' (show _ < 2 ^ 64 by omega)]
    omega
  have hnarrow : Magnitude.ofBits 8 23 bits.toNat =
      Magnitude.ofParts 8 23 (bits.toNat >>> 23 % 0x100) (bits.toNat % 0x800000) := by
    rw [Magnitude.ofBits, Nat.shiftRight_eq_div_pow]
    norm_num
  rw [hbits, Magnitude.ofBits_placed _ hexponent hfraction, hnarrow]
  exact ⟨by omega, hmagnitude⟩

end AtomTimeline
