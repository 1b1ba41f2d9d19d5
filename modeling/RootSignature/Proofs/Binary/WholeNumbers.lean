import RootSignature.Proofs.Binary.Decimals

/-!
# Decimals that are whole numbers

A whole number of at most 53 binary digits is a 64-bit float
(`BinaryFormat.exists_value_eq_natCast`). So the first rounding of a decimal leaves such a number as
it is, and its 32-bit float is that of the whole number (`Binary32.ofDecimal?_eq_ofInt`).
-/

namespace RootSignature

open BinaryFormat (binary32 binary64)

/-- A whole number that has no more digits than a significand is a value of the format, with an
exponent that is not large. -/
theorem BinaryFormat.exists_value_eq_natCast {f : BinaryFormat}
    (hunit : f.fractionDigits ≤ f.unitExponent) {m : Nat} (hm : m < 2 ^ (f.fractionDigits + 1)) :
    ∃ code, f.value code = m ∧ code ≤ (f.unitExponent + 2) * 2 ^ f.fractionDigits := by
  by_cases hzero : m = 0
  · exact ⟨0, by rw [value_zero, hzero, Nat.cast_zero], Nat.zero_le _⟩
  -- The leading digit of the number becomes that of the significand.
  obtain ⟨extra, hextra⟩ := Nat.exists_eq_add_of_le (log2_le_of_lt hm)
  obtain ⟨shift, hshift⟩ := Nat.exists_eq_add_of_le hunit
  have hge : 2 ^ f.fractionDigits ≤ m * 2 ^ extra := by
    rw [hextra, pow_add]
    exact Nat.mul_le_mul_right _ (Nat.log2_self_le hzero)
  have hle : m * 2 ^ extra ≤ 2 * 2 ^ f.fractionDigits := by
    calc m * 2 ^ extra ≤ 2 ^ (m.log2 + 1) * 2 ^ extra :=
          Nat.mul_le_mul_right _ (Nat.le_of_lt Nat.lt_log2_self)
      _ = 2 * 2 ^ f.fractionDigits := by
          rw [hextra]
          ring
  refine ⟨(shift + m.log2) * 2 ^ f.fractionDigits + m * 2 ^ extra, ?_, ?_⟩
  · have hexponent : extra + (shift + m.log2) = f.unitExponent := by omega
    rw [value, units_shift_add hle (.inr hge), Nat.mul_assoc, ← pow_add, hexponent]
    push_cast
    field_simp
  · calc (shift + m.log2) * 2 ^ f.fractionDigits + m * 2 ^ extra
        ≤ f.unitExponent * 2 ^ f.fractionDigits + 2 * 2 ^ f.fractionDigits :=
          Nat.add_le_add (Nat.mul_le_mul_right _ (by omega)) hle
      _ = (f.unitExponent + 2) * 2 ^ f.fractionDigits := by ring

namespace Binary32

/-- A whole number of 32 bits is rounded to its nearest value. -/
theorem isNearest_nearest_natCast {m : Nat} (hm : m ≤ UInt32.size) :
    binary32.IsNearest m (binary32.nearest m 1) := by
  have hround := binary32.isNearest_nearest (by decide) m Nat.one_pos
  rwa [Nat.min_eq_left (Nat.le_of_lt (nearest_lt_of_le_size hm)), Nat.cast_one, div_one] at hround

/-- A decimal whose value is a whole number of 32 bits has the float of this number. The sign of
zero must not be a minus. -/
theorem ofDecimal?_eq_ofInt {d : Decimal} {n : Int} (hmagnitude : d.magnitude = n.natAbs)
    (hsign : d.negative = decide (n < 0)) (hn : n.natAbs ≤ UInt32.size) :
    ofDecimal? d = some (ofInt n) := by
  have hsize : UInt32.size = 2 ^ 32 := rfl
  obtain ⟨wide, hvalue, hcode⟩ := BinaryFormat.exists_value_eq_natCast (f := binary64) (by decide)
    (m := n.natAbs) (Nat.lt_of_le_of_lt hn (by decide))
  have hwide : binary64.IsNearest d.magnitude wide := by
    rw [hmagnitude, ← hvalue]
    exact BinaryFormat.isNearest_value (hcode.trans (by decide))
  have hle : binary64.value wide ≤ (2 ^ 24 - 1) * 2 ^ 104 := by
    calc binary64.value wide = (n.natAbs : ℚ) := hvalue
      _ ≤ (UInt32.size : ℚ) := Nat.cast_le.2 hn
      _ ≤ (2 ^ 24 - 1) * 2 ^ 104 := by rw [hsize]; norm_num
  have hzero : wide = 0 → d.significand = 0 := by
    rintro rfl
    have hmagnitude_zero : (d.significand : ℚ) * 10 ^ d.exponent = 0 := by
      rw [BinaryFormat.value_zero] at hvalue
      exact hmagnitude.trans hvalue.symm
    simpa [zpow_ne_zero] using hmagnitude_zero
  obtain ⟨narrow, hnarrow, hsome⟩ := ofDecimal?_eq_some hwide hle hzero
  rw [hvalue] at hnarrow
  rw [hsome, hnarrow.unique (isNearest_nearest_natCast hn), hsign]
  rfl

end Binary32

end RootSignature
