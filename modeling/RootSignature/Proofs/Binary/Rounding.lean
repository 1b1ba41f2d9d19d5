import Mathlib.Tactic.Ring
import RootSignature.Binary.Binary32

/-!
# Rounding stays within bounds

Rounding to nearest does not pass a value of the format: what is at most that value is rounded to at
most that value (`BinaryFormat.nearestUnits_le`). So nothing up to the largest value overflows, and
the floats that numbers are read as are finite (`Binary32.isFinite_ofInt`,
`Binary32.isFinite_ofDecimal?`).
-/

namespace RootSignature

/-- A quotient that is at most a whole number is rounded to at most that number. -/
theorem roundHalfEven_le {num den m : Nat} (hden : 0 < den) (h : num ≤ m * den) :
    roundHalfEven num den ≤ m := by
  have hle : num / den ≤ m := Nat.div_le_of_le_mul (by rwa [Nat.mul_comm])
  unfold roundHalfEven
  dsimp only
  rcases Nat.lt_or_eq_of_le hle with hlt | heq
  · -- Below the number there is room for a step up.
    have hmod : num / den % 2 ≤ 1 := Nat.le_of_lt_succ (Nat.mod_lt _ (by decide))
    split
    · exact hle
    · split <;> omega
  · -- At the number there is nothing left to round.
    have hexact : num % den = 0 := by
      have hsplit := Nat.div_add_mod num den
      rw [heq, Nat.mul_comm] at hsplit
      omega
    rw [hexact, Nat.mul_zero, if_pos hden]
    exact hle

namespace BinaryFormat

variable {f : BinaryFormat} {num den code : Nat}

/-- Codes below the leading digit count units. -/
theorem units_of_lt (h : code < 2 ^ f.fractionDigits) : f.units code = code := by
  simp [units, Nat.one_shiftLeft, h]

/-- All other codes consist of an exponent and of the digits of a significand. -/
theorem units_eq (exponent : Nat) {digits : Nat} (h : digits < 2 ^ f.fractionDigits) :
    f.units ((exponent + 1) * 2 ^ f.fractionDigits + digits) =
      (2 ^ f.fractionDigits + digits) * 2 ^ exponent := by
  have hpos : 0 < 2 ^ f.fractionDigits := Nat.two_pow_pos _
  have hge : ¬ (exponent + 1) * 2 ^ f.fractionDigits + digits < 2 ^ f.fractionDigits := by
    rw [Nat.add_one_mul]
    omega
  have hmod : ((exponent + 1) * 2 ^ f.fractionDigits + digits) % 2 ^ f.fractionDigits = digits := by
    rw [Nat.mul_add_mod_self_right, Nat.mod_eq_of_lt h]
  have hdiv : ((exponent + 1) * 2 ^ f.fractionDigits + digits) / 2 ^ f.fractionDigits =
      exponent + 1 := by
    rw [Nat.mul_comm, Nat.mul_add_div hpos, Nat.div_eq_of_lt h, Nat.add_zero]
  simp only [units, Nat.shiftLeft_eq, Nat.one_mul, if_neg hge, hmod, hdiv, Nat.add_sub_cancel]

/-- Every code is one or the other. -/
theorem exists_exponent_digits (h : ¬ code < 2 ^ f.fractionDigits) :
    ∃ exponent digits, digits < 2 ^ f.fractionDigits ∧
      code = (exponent + 1) * 2 ^ f.fractionDigits + digits := by
  have hpos : 0 < 2 ^ f.fractionDigits := Nat.two_pow_pos _
  have hdiv : 0 < code / 2 ^ f.fractionDigits := Nat.div_pos (Nat.le_of_not_lt h) hpos
  refine ⟨code / 2 ^ f.fractionDigits - 1, code % 2 ^ f.fractionDigits, Nat.mod_lt _ hpos, ?_⟩
  rw [Nat.sub_add_cancel hdiv, Nat.mul_comm, Nat.div_add_mod]

/-- A number below a power of two has at most that many digits. -/
theorem log2_le_of_lt {n k : Nat} (h : n < 2 ^ (k + 1)) : n.log2 ≤ k := by
  by_cases hn : n = 0
  · simp [hn]
  · exact Nat.le_of_lt_succ ((Nat.log2_lt hn).2 h)

/-- A significand is rounded to at most one digit more than there is room for. -/
theorem roundHalfEven_shift_le (hden : 0 < den) {shift : Nat}
    (h : (num / den).log2 ≤ f.fractionDigits + shift) :
    roundHalfEven num (den * 2 ^ shift) ≤ 2 * 2 ^ f.fractionDigits := by
  refine roundHalfEven_le (Nat.mul_pos hden (Nat.two_pow_pos _)) ?_
  have hlt : num / den < 2 ^ (f.fractionDigits + shift + 1) :=
    calc num / den < 2 ^ ((num / den).log2 + 1) := Nat.lt_log2_self
      _ ≤ 2 ^ (f.fractionDigits + shift + 1) := Nat.pow_le_pow_right (by decide) (by omega)
  calc num ≤ 2 ^ (f.fractionDigits + shift + 1) * den := by
        exact Nat.le_of_lt ((Nat.div_lt_iff_lt_mul hden).1 hlt)
    _ = 2 * 2 ^ f.fractionDigits * (den * 2 ^ shift) := by ring

/-- What is at most the value of a code is rounded to at most this code. -/
theorem nearestUnits_le (hden : 0 < den) (h : num ≤ f.units code * den) :
    f.nearestUnits num den ≤ code := by
  have hquotient : num / den ≤ f.units code := Nat.div_le_of_le_mul (by rwa [Nat.mul_comm])
  unfold nearestUnits
  dsimp only
  rw [Nat.shiftLeft_eq, Nat.shiftLeft_eq]
  by_cases hcode : code < 2 ^ f.fractionDigits
  · -- Nothing but the fraction of a unit is rounded away.
    rw [units_of_lt hcode] at h hquotient
    have hlog : (num / den).log2 ≤ f.fractionDigits :=
      log2_le_of_lt (Nat.lt_of_le_of_lt hquotient (Nat.lt_of_lt_of_le hcode
        (Nat.pow_le_pow_right (by decide) (Nat.le_succ _))))
    rw [Nat.sub_eq_zero_of_le hlog, Nat.zero_mul, Nat.zero_add, Nat.pow_zero, Nat.mul_one]
    exact roundHalfEven_le hden h
  · obtain ⟨exponent, digits, hdigits, rfl⟩ := exists_exponent_digits hcode
    rw [units_eq exponent hdigits] at h hquotient
    have hlog : (num / den).log2 ≤ f.fractionDigits + exponent := by
      refine log2_le_of_lt (Nat.lt_of_le_of_lt hquotient ?_)
      calc (2 ^ f.fractionDigits + digits) * 2 ^ exponent
          < (2 ^ f.fractionDigits + 2 ^ f.fractionDigits) * 2 ^ exponent :=
            Nat.mul_lt_mul_of_pos_right (by omega) (Nat.two_pow_pos _)
        _ = 2 ^ (f.fractionDigits + exponent + 1) := by ring
    generalize hshift : (num / den).log2 - f.fractionDigits = shift
    rcases Nat.lt_or_eq_of_le (show shift ≤ exponent by omega) with hlt | rfl
    · -- The exponent is less, and a carry brings it up to at most that of the code.
      have hround : roundHalfEven num (den * 2 ^ shift) ≤ 2 * 2 ^ f.fractionDigits :=
        roundHalfEven_shift_le hden (by omega)
      calc shift * 2 ^ f.fractionDigits + roundHalfEven num (den * 2 ^ shift)
          ≤ shift * 2 ^ f.fractionDigits + 2 * 2 ^ f.fractionDigits :=
            Nat.add_le_add_left hround _
        _ = (shift + 2) * 2 ^ f.fractionDigits := by ring
        _ ≤ (exponent + 1) * 2 ^ f.fractionDigits := Nat.mul_le_mul_right _ (by omega)
        _ ≤ (exponent + 1) * 2 ^ f.fractionDigits + digits := Nat.le_add_right _ _
    · -- The exponent is the same, so the significand counts.
      have hround : roundHalfEven num (den * 2 ^ shift) ≤ 2 ^ f.fractionDigits + digits := by
        refine roundHalfEven_le (Nat.mul_pos hden (Nat.two_pow_pos _)) ?_
        calc num ≤ (2 ^ f.fractionDigits + digits) * 2 ^ shift * den := h
          _ = (2 ^ f.fractionDigits + digits) * (den * 2 ^ shift) := by ring
      calc shift * 2 ^ f.fractionDigits + roundHalfEven num (den * 2 ^ shift)
          ≤ shift * 2 ^ f.fractionDigits + (2 ^ f.fractionDigits + digits) :=
            Nat.add_le_add_left hround _
        _ = (shift + 1) * 2 ^ f.fractionDigits + digits := by ring

end BinaryFormat

namespace Binary32

open BinaryFormat (binary32 binary64)

/-- The sign is a bit of its own above the code. -/
theorem toNat_bits_ofCode (negative : Bool) {code : Nat} (h : code < signBit) :
    (ofCode negative code).bits.toNat = code + if negative then signBit else 0 := by
  rw [ofCode, UInt32.toNat_ofNat']
  refine Nat.mod_eq_of_lt ?_
  unfold signBit at h ⊢
  split <;> omega

/-- A float is of the magnitude that it is made of. -/
theorem code_ofCode (negative : Bool) {code : Nat} (h : code < signBit) :
    (ofCode negative code).code = code := by
  rw [Binary32.code, toNat_bits_ofCode negative h]
  split
  · rw [Nat.add_mod_right, Nat.mod_eq_of_lt h]
  · rw [Nat.add_zero, Nat.mod_eq_of_lt h]

/-- A float is finite if its magnitude is one of the format. -/
theorem isFinite_ofCode (negative : Bool) {code : Nat} (h : code < binary32.codeCount) :
    (ofCode negative code).isFinite = true := by
  rw [isFinite, code_ofCode negative (Nat.lt_trans h (by decide))]
  exact decide_eq_true h

/-- What is at most the largest float is rounded to a code of the format. -/
theorem nearestUnits_lt {num den : Nat} (hden : 0 < den)
    (h : num ≤ binary32.units (binary32.codeCount - 1) * den) :
    binary32.nearestUnits num den < binary32.codeCount :=
  Nat.lt_of_le_of_lt (BinaryFormat.nearestUnits_le hden h) (by decide)

/-- Whole numbers of 32 bits are rounded to codes of the format. -/
theorem nearest_lt_of_le_size {m : Nat} (h : m ≤ UInt32.size) :
    binary32.nearest m 1 < binary32.codeCount := by
  refine nearestUnits_lt Nat.one_pos ?_
  calc m <<< binary32.unitExponent
      ≤ UInt32.size <<< binary32.unitExponent := by
        rw [Nat.shiftLeft_eq, Nat.shiftLeft_eq]
        exact Nat.mul_le_mul_right _ h
    _ ≤ binary32.units (binary32.codeCount - 1) * 1 := by decide

/-- Whole numbers of 32 bits are read as finite floats. -/
theorem isFinite_ofInt {n : Int} (h : n.natAbs ≤ UInt32.size) : (ofInt n).isFinite = true :=
  isFinite_ofCode _ (nearest_lt_of_le_size h)

/-- A 64-bit float that is at most the largest float is rounded to a code of the format. -/
theorem nearest_lt_of_le_largest {wide : Nat} (h : wide ≤ largestUnits64) :
    binary32.nearest wide (1 <<< binary64.unitExponent) < binary32.codeCount := by
  refine nearestUnits_lt (by decide) ?_
  calc wide <<< binary32.unitExponent
      ≤ largestUnits64 <<< binary32.unitExponent := by
        rw [Nat.shiftLeft_eq, Nat.shiftLeft_eq]
        exact Nat.mul_le_mul_right _ h
    _ = binary32.units (binary32.codeCount - 1) * (1 <<< binary64.unitExponent) := by
        decide

/-- Decimals that are read as floats are read as finite ones. -/
theorem isFinite_of_ofDecimal? {d : Decimal} {x : Binary32} (h : ofDecimal? d = some x) :
    x.isFinite = true := by
  unfold ofDecimal? at h
  dsimp only at h
  split at h
  · cases h
  · split at h
    · cases h
    · next hlargest =>
        cases h
        exact isFinite_ofCode _ (nearest_lt_of_le_largest (Nat.le_of_not_lt hlargest))

end Binary32

end RootSignature
