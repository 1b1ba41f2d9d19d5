import Mathlib.Algebra.Order.Field.Power
import RootSignature.Proofs.Binary.Nearest

/-!
# Decimals are rounded twice

A decimal is rounded to the nearest 64-bit float (`Decimal.isNearest_nearest64`), however large or
small its exponent is: where the exponent is brought near the range of these floats, the decimal is
larger than all of them, or nearest to zero, before and after.

The 32-bit float of a decimal is the one nearest to that 64-bit float. There is one if and only if
the 64-bit float is at most the largest 32-bit float, and is zero for zero only
(`Binary32.ofDecimal?_eq_some`, `Binary32.ofDecimal?_eq_none_of_lt`,
`Binary32.ofDecimal?_eq_none_of_zero`).
-/

namespace RootSignature

open BinaryFormat (binary32 binary64)

namespace Decimal

variable {d : Decimal}

/-- The number that a decimal without its sign denotes. -/
def magnitude (d : Decimal) : ℚ :=
  d.significand * 10 ^ d.exponent

theorem magnitude_nonneg (d : Decimal) : 0 ≤ d.magnitude := by
  unfold magnitude
  positivity

/-- A decimal is rounded to the nearest value of a format. -/
theorem isNearest_nearest {f : BinaryFormat} (hdigits : 0 < f.fractionDigits) (d : Decimal) :
    f.IsNearest d.magnitude (min (d.nearest f) f.codeCount) := by
  obtain ⟨negative, significand, exponent⟩ := d
  cases exponent with
  | ofNat k =>
      have hround := f.isNearest_nearest hdigits (significand * Nat.pow 10 k) Nat.one_pos
      simpa [magnitude, nearest] using hround
  | negSucc k =>
      have hden : 0 < Nat.pow 10 (k + 1) := Nat.pow_pos (by decide)
      have hround := f.isNearest_nearest hdigits significand hden
      simpa [magnitude, nearest, zpow_negSucc, div_eq_mul_inv] using hround

/-! ## Exponents out of range -/

/-- A number is below the power of ten of its count of digits. -/
theorem lt_ten_pow_digitCount (n : Nat) : n < 10 ^ digitCount n :=
  (Nat.length_toDigits_le_iff (by decide) (List.length_pos_of_ne_nil Nat.toDigits_ne_nil)).1 le_rfl

/-- What follows the largest double is within the power of ten of the limit. -/
theorem value_codeCount_le : binary64.value binary64.codeCount ≤ 10 ^ exponentLimit := by
  have hunits : binary64.units binary64.codeCount ≤
      10 ^ exponentLimit * 2 ^ binary64.unitExponent := by
    decide +kernel
  have hcast := Nat.cast_le (α := ℚ).2 hunits
  rw [Nat.cast_mul, Nat.cast_pow, Nat.cast_pow] at hcast
  rw [BinaryFormat.value, div_le_iff₀ (by positivity)]
  exact hcast

/-- The least positive double is twice the least power of ten of the limit, or more. -/
theorem two_le_value_one : 2 ≤ binary64.value 1 * 10 ^ exponentLimit := by
  have hunits : 2 * 2 ^ binary64.unitExponent ≤ binary64.units 1 * 10 ^ exponentLimit := by
    decide +kernel
  have hcast := Nat.cast_le (α := ℚ).2 hunits
  rw [Nat.cast_mul, Nat.cast_mul, Nat.cast_pow, Nat.cast_pow] at hcast
  rw [BinaryFormat.value, div_mul_eq_mul_div, le_div_iff₀ (by positivity)]
  exact hcast

/-- A decimal with a large exponent is larger than all 64-bit floats, unless it is zero. -/
theorem isNearest_of_large (hne : d.significand ≠ 0) (h : (exponentLimit : Int) ≤ d.exponent) :
    binary64.IsNearest d.magnitude binary64.codeCount := by
  refine BinaryFormat.isNearest_codeCount ?_
  have hone : (1 : ℚ) ≤ d.significand := Nat.one_le_cast.2 (Nat.pos_of_ne_zero hne)
  calc binary64.value binary64.codeCount ≤ 10 ^ exponentLimit := value_codeCount_le
    _ = 1 * 10 ^ (exponentLimit : Int) := by rw [one_mul, zpow_natCast]
    _ ≤ d.significand * 10 ^ d.exponent :=
        mul_le_mul hone (zpow_le_zpow_right₀ (by norm_num) h) (by positivity) (by positivity)

/-- A decimal with a small exponent, which its digits do not make up for, is nearest to zero. -/
theorem isNearest_of_small
    (h : d.exponent ≤ -(exponentLimit + digitCount d.significand : Nat)) :
    binary64.IsNearest d.magnitude 0 := by
  refine BinaryFormat.isNearest_zero_of_le ?_
  have hdigits : (d.significand : ℚ) ≤ 10 ^ digitCount d.significand := by
    exact_mod_cast Nat.le_of_lt (lt_ten_pow_digitCount d.significand)
  have hpos : (0 : ℚ) < 10 ^ exponentLimit := by positivity
  have hmagnitude : d.magnitude * 10 ^ exponentLimit ≤ 1 :=
    calc d.magnitude * 10 ^ exponentLimit
        ≤ 10 ^ digitCount d.significand *
            10 ^ (-(exponentLimit + digitCount d.significand : Nat) : Int) * 10 ^ exponentLimit := by
          refine mul_le_mul_of_nonneg_right ?_ hpos.le
          exact mul_le_mul hdigits (zpow_le_zpow_right₀ (by norm_num) h) (by positivity)
            (by positivity)
      _ = 1 := by
          rw [zpow_neg, zpow_natCast, pow_add]
          field_simp
  have hle : 2 * d.magnitude * 10 ^ exponentLimit ≤ binary64.value 1 * 10 ^ exponentLimit := by
    linarith [two_le_value_one]
  exact le_of_mul_le_mul_right hle hpos

/-- A decimal is rounded to the nearest 64-bit float, or is larger than all of them. -/
theorem isNearest_nearest64 (d : Decimal) :
    binary64.IsNearest d.magnitude (min d.nearest64 binary64.codeCount) := by
  have hclamp := d.clamp.isNearest_nearest (f := binary64) (by decide)
  have hsignificand : d.clamp.significand = d.significand := rfl
  have hexponent : d.clamp.exponent =
      max (-(exponentLimit + digitCount d.significand : Nat) : Int) (min exponentLimit d.exponent) :=
    rfl
  change binary64.IsNearest d.clamp.magnitude (min d.nearest64 binary64.codeCount) at hclamp
  by_cases hzero : d.significand = 0
  · simpa [magnitude, hsignificand, hzero] using hclamp
  by_cases hlarge : (exponentLimit : Int) < d.exponent
  · have hlargest : binary64.IsNearest d.clamp.magnitude binary64.codeCount :=
      isNearest_of_large (hsignificand ▸ hzero) (by omega)
    rw [hclamp.unique hlargest]
    exact isNearest_of_large hzero hlarge.le
  by_cases hsmall : d.exponent < -(exponentLimit + digitCount d.significand : Nat)
  · have hvanishing : binary64.IsNearest d.clamp.magnitude 0 :=
      isNearest_of_small (by rw [hsignificand, hexponent]; omega)
    rw [hclamp.unique hvanishing]
    exact isNearest_of_small hsmall.le
  · have hsame : d.clamp.exponent = d.exponent := by omega
    rwa [magnitude, hsignificand, hsame] at hclamp

end Decimal

/-! ## 32-bit floats of decimals -/

namespace Binary32

variable {d : Decimal} {code : Nat}

/-- Among the values of 64-bit floats, those up to the largest 32-bit float. -/
theorem value_le_largest_iff :
    binary64.value code ≤ (2 ^ 24 - 1) * 2 ^ 104 ↔ binary64.units code ≤ largestUnits64 := by
  have hlargest : largestUnits64 = (2 ^ 24 - 1) * 2 ^ 104 * 2 ^ binary64.unitExponent := by
    decide +kernel
  have hcast : (largestUnits64 : ℚ) = (2 ^ 24 - 1) * 2 ^ 104 * 2 ^ binary64.unitExponent := by
    rw [hlargest]
    push_cast
    norm_num
  rw [BinaryFormat.value, div_le_iff₀ (by positivity), ← hcast, Nat.cast_le]

/-- The largest value of single precision is within double precision. -/
theorem value_codeCount_gt : (2 ^ 24 - 1) * 2 ^ 104 < binary64.value binary64.codeCount := by
  rw [← not_le, value_le_largest_iff]
  decide +kernel

theorem units_eq_zero_iff : binary64.units code = 0 ↔ code = 0 :=
  ⟨fun h => binary64.units_strictMono.injective (h.trans rfl), by rintro rfl; rfl⟩

variable {wide : Nat}

/-- The nearest 64-bit float is what has been computed, unless it is larger than all of them. -/
theorem nearest64_eq (hwide : binary64.IsNearest d.magnitude wide)
    (hle : binary64.value wide ≤ (2 ^ 24 - 1) * 2 ^ 104) : d.nearest64 = wide := by
  have hcomputed := hwide.unique d.isNearest_nearest64
  rcases le_total d.nearest64 binary64.codeCount with hcount | hcount
  · rw [hcomputed, Nat.min_eq_left hcount]
  · rw [Nat.min_eq_right hcount] at hcomputed
    exact absurd hle (not_le.2 (hcomputed ▸ value_codeCount_gt))

/-- A decimal has the 32-bit float nearest to its 64-bit float if this is not too large, and not
zero for a decimal that is not zero. -/
theorem ofDecimal?_eq_some (hwide : binary64.IsNearest d.magnitude wide)
    (hle : binary64.value wide ≤ (2 ^ 24 - 1) * 2 ^ 104) (hzero : wide = 0 → d.significand = 0) :
    ∃ narrow, binary32.IsNearest (binary64.value wide) narrow ∧
      ofDecimal? d = some (ofCode d.negative narrow) := by
  have hlargest : binary64.units wide ≤ largestUnits64 := value_le_largest_iff.1 hle
  have hpresent : ¬ (binary64.units wide = 0 ∧ d.significand ≠ 0) :=
    fun h => h.2 (hzero (units_eq_zero_iff.1 h.1))
  refine ⟨binary32.nearest (binary64.units wide) (1 <<< binary64.unitExponent), ?_, ?_⟩
  · have hunit : ((1 <<< binary64.unitExponent : Nat) : ℚ) = 2 ^ binary64.unitExponent := by
      rw [Nat.one_shiftLeft, Nat.cast_pow, Nat.cast_ofNat]
    have hround := binary32.isNearest_nearest (by decide) (binary64.units wide)
      (Nat.one_shiftLeft _ ▸ Nat.two_pow_pos binary64.unitExponent)
    rw [Nat.min_eq_left (Nat.le_of_lt (nearest_lt_of_le_largest hlargest)), hunit] at hround
    exact hround
  · rw [ofDecimal?, nearest64_eq hwide hle, if_neg hpresent, if_neg (Nat.not_lt.2 hlargest)]

/-- A decimal has no 32-bit float if its 64-bit float is too large. -/
theorem ofDecimal?_eq_none_of_lt (hwide : binary64.IsNearest d.magnitude wide)
    (hlt : (2 ^ 24 - 1) * 2 ^ 104 < binary64.value wide) : ofDecimal? d = none := by
  have hle : wide ≤ d.nearest64 := by
    rw [hwide.unique d.isNearest_nearest64]
    exact Nat.min_le_left _ _
  have hunits : largestUnits64 < binary64.units d.nearest64 := by
    rw [← not_le, value_le_largest_iff, not_le] at hlt
    exact Nat.lt_of_lt_of_le hlt (binary64.units_strictMono.monotone hle)
  simp only [ofDecimal?, if_pos hunits, ite_self]

/-- A decimal has no 32-bit float if its 64-bit float is zero although the decimal is not. -/
theorem ofDecimal?_eq_none_of_zero (hzero : binary64.IsNearest d.magnitude 0)
    (hne : d.significand ≠ 0) : ofDecimal? d = none := by
  have hcomputed : d.nearest64 = 0 := nearest64_eq hzero (by rw [BinaryFormat.value_zero]; norm_num)
  rw [ofDecimal?, hcomputed]
  exact if_pos ⟨rfl, hne⟩

/-- The float of a decimal has the sign of the decimal, and its magnitude is that of the 64-bit
float rounded again. -/
theorem of_ofDecimal?_eq_some {x : Binary32} (h : ofDecimal? d = some x)
    (hwide : binary64.IsNearest d.magnitude wide) :
    binary64.value wide ≤ (2 ^ 24 - 1) * 2 ^ 104 ∧ (wide = 0 → d.significand = 0) ∧
      ∃ narrow, binary32.IsNearest (binary64.value wide) narrow ∧ x = ofCode d.negative narrow := by
  have hle : binary64.value wide ≤ (2 ^ 24 - 1) * 2 ^ 104 := by
    by_contra hlt
    rw [ofDecimal?_eq_none_of_lt hwide (not_le.1 hlt)] at h
    cases h
  have hzero : wide = 0 → d.significand = 0 := by
    rintro rfl
    by_contra hne
    rw [ofDecimal?_eq_none_of_zero hwide hne] at h
    cases h
  obtain ⟨narrow, hnarrow, hsome⟩ := ofDecimal?_eq_some hwide hle hzero
  exact ⟨hle, hzero, narrow, hnarrow, Option.some.inj (h.symm.trans hsome)⟩

/-- The nearest code of any number leaves the bit of the sign free. -/
theorem lt_signBit_of_isNearest {y : ℚ} (h : binary32.IsNearest y code) : code < signBit :=
  Nat.lt_of_le_of_lt h.le (by decide)

/-- A half of the least 32-bit float is a 64-bit float. What is rounded to at most this one is at
most the middle to the next one. -/
theorem value_le_half_iff (hwide : binary64.IsNearest d.magnitude wide) :
    binary64.value wide ≤ 1 / 2 ^ 150 ↔ d.magnitude ≤ 1 / 2 ^ 150 + 1 / 2 ^ 203 := by
  have hdigits : binary64.fractionDigits = 52 := rfl
  have hhalf : binary64.value (873 * 2 ^ 52) = 1 / 2 ^ 150 := by
    have hvalue := binary64.value_eq 872 0 150 (by decide) (by decide)
    rw [hdigits, pow_add, Nat.cast_zero, add_zero] at hvalue
    exact hvalue.trans (by norm_num)
  have hnext : binary64.value (873 * 2 ^ 52 + 1) = 1 / 2 ^ 150 + 1 / 2 ^ 202 := by
    have hvalue := binary64.value_eq 872 1 150 (by decide) (by decide)
    rw [hdigits, pow_add, Nat.cast_one] at hvalue
    exact hvalue.trans (by norm_num)
  have hmiddle := hwide.le_iff (c := 873 * 2 ^ 52) (by decide) rfl
  rw [← hhalf, binary64.value_strictMono.le_iff_le, hmiddle, hhalf, hnext,
    show (1 : ℚ) / 2 ^ 202 = 2 * (1 / 2 ^ 203) by norm_num]
  constructor <;> intro h <;> linarith

/-- A decimal that is not zero is read as zero if it vanishes among 32-bit floats but not among
64-bit floats. -/
theorem exists_code_eq_zero_iff (hne : d.significand ≠ 0) :
    (∃ x, ofDecimal? d = some x ∧ x.code = 0) ↔
      1 / 2 ^ 1075 < d.magnitude ∧ d.magnitude ≤ 1 / 2 ^ 150 + 1 / 2 ^ 203 := by
  have hwide := d.isNearest_nearest64
  generalize min d.nearest64 binary64.codeCount = wide at hwide
  have hunit64 : binary64.unitExponent + 1 = 1075 := rfl
  have hunit32 : binary32.unitExponent + 1 = 150 := rfl
  have hvanishes64 : wide = 0 ↔ d.magnitude ≤ 1 / 2 ^ 1075 := by
    rw [hwide.eq_zero_iff (by decide) (by decide), hunit64]
  have hvanishes32 {narrow : Nat} (h : binary32.IsNearest (binary64.value wide) narrow) :
      narrow = 0 ↔ binary64.value wide ≤ 1 / 2 ^ 150 := by
    rw [h.eq_zero_iff (by decide) (by decide), hunit32]
  rw [← value_le_half_iff hwide, ← not_le, ← hvanishes64]
  constructor
  · rintro ⟨x, hx, hcode⟩
    obtain ⟨-, hzero, narrow, hnarrow, rfl⟩ := of_ofDecimal?_eq_some hx hwide
    rw [code_ofCode _ (lt_signBit_of_isNearest hnarrow)] at hcode
    exact ⟨fun h => hne (hzero h), (hvanishes32 hnarrow).1 hcode⟩
  · rintro ⟨hpresent, hle⟩
    obtain ⟨narrow, hnarrow, hsome⟩ := ofDecimal?_eq_some hwide (hle.trans (by norm_num))
      fun h => absurd h hpresent
    refine ⟨_, hsome, ?_⟩
    rw [code_ofCode _ (lt_signBit_of_isNearest hnarrow)]
    exact (hvanishes32 hnarrow).2 hle

end Binary32

end RootSignature
