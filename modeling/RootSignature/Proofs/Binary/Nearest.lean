import Mathlib.Algebra.Order.Field.Rat
import Mathlib.Order.Monotone.Basic
import Mathlib.Tactic.FieldSimp
import Mathlib.Tactic.Linarith
import Mathlib.Tactic.Positivity
import RootSignature.Proofs.Binary.Rounding

/-!
# Rounding finds the nearest value

`BinaryFormat.IsNearest` says which value of a format a number is rounded to: the nearest one, a
half to the even one, where `codeCount` stands for what is larger than all values. A number has one
nearest value only (`IsNearest.unique`), the order of numbers is kept (`IsNearest.mono`), and
`BinaryFormat.nearest` finds the nearest value of a fraction (`isNearest_nearest`).

All follows from where a number stands between the neighbours of a code (`isNearest_of_neighbours`).
The neighbours of what is rounded to are found in units, by natural numbers.
-/

namespace RootSignature

/-- A quotient that is at least a whole number is rounded to at least that number. -/
theorem le_roundHalfEven {num den m : Nat} (hden : 0 < den) (h : m * den ≤ num) :
    m ≤ roundHalfEven num den := by
  have hle : m ≤ num / den := (Nat.le_div_iff_mul_le hden).2 h
  unfold roundHalfEven
  dsimp only
  split
  · exact hle
  · split <;> omega

/-- What is rounded off is at most a half, and a half only from an even number. -/
theorem roundHalfEven_spec (num : Nat) {den : Nat} (hden : 0 < den) :
    2 * num ≤ (2 * roundHalfEven num den + 1) * den ∧
      (2 * num = (2 * roundHalfEven num den + 1) * den → roundHalfEven num den % 2 = 0) ∧
      2 * roundHalfEven num den * den ≤ 2 * num + den ∧
      (2 * roundHalfEven num den * den = 2 * num + den → roundHalfEven num den % 2 = 0) := by
  have hsplit : num = num / den * den + num % den := by
    rw [Nat.mul_comm, Nat.div_add_mod]
  have hmod : num % den < den := Nat.mod_lt _ hden
  unfold roundHalfEven
  dsimp only
  generalize num / den = quotient at hsplit ⊢
  generalize num % den = rest at hsplit hmod ⊢
  subst hsplit
  split
  · refine ⟨?_, ?_, ?_, ?_⟩ <;> intros <;> nlinarith
  · split
    · refine ⟨?_, ?_, ?_, ?_⟩ <;> intros <;> nlinarith
    · have hparity : quotient % 2 = 0 ∨ quotient % 2 = 1 := Nat.mod_two_eq_zero_or_one _
      have hhalf : 2 * rest = den := by omega
      rcases hparity with heven | hodd
      · rw [heven, Nat.add_zero]
        exact ⟨by nlinarith, fun _ => heven, by nlinarith, fun _ => heven⟩
      · rw [hodd]
        have heven : (quotient + 1) % 2 = 0 := by omega
        exact ⟨by nlinarith, fun _ => heven, by nlinarith, fun _ => heven⟩

namespace BinaryFormat

variable {f : BinaryFormat}

/-! ## The values of codes -/

/-- A code is the number of an exponent and the digits of a significand, where the leading digit may
carry over into the exponent. -/
theorem units_shift_add {shift significand : Nat} (hle : significand ≤ 2 * 2 ^ f.fractionDigits)
    (hge : shift = 0 ∨ 2 ^ f.fractionDigits ≤ significand) :
    f.units (shift * 2 ^ f.fractionDigits + significand) = significand * 2 ^ shift := by
  by_cases hsmall : significand < 2 ^ f.fractionDigits
  · obtain rfl : shift = 0 := by omega
    rw [Nat.zero_mul, Nat.zero_add, units_of_lt hsmall, Nat.pow_zero, Nat.mul_one]
  · obtain ⟨digits, rfl⟩ := Nat.exists_eq_add_of_le (Nat.le_of_not_lt hsmall)
    rcases Nat.lt_or_eq_of_le (show digits ≤ 2 ^ f.fractionDigits by omega) with hlt | rfl
    · rw [← units_eq shift hlt]
      ring_nf
    · -- The carry: the significand is that of the next exponent, without further digits.
      have hcarry := units_eq (f := f) (shift + 1) (Nat.two_pow_pos f.fractionDigits)
      calc f.units (shift * 2 ^ f.fractionDigits + (2 ^ f.fractionDigits + 2 ^ f.fractionDigits))
          = f.units ((shift + 1 + 1) * 2 ^ f.fractionDigits + 0) := by ring_nf
        _ = (2 ^ f.fractionDigits + 0) * 2 ^ (shift + 1) := hcarry
        _ = (2 ^ f.fractionDigits + 2 ^ f.fractionDigits) * 2 ^ shift := by ring

/-- Every code is of this form, with a significand that has not been carried over. -/
theorem exists_shift_add (f : BinaryFormat) (code : Nat) :
    ∃ shift significand, significand < 2 * 2 ^ f.fractionDigits ∧
      (shift = 0 ∨ 2 ^ f.fractionDigits ≤ significand) ∧
        code = shift * 2 ^ f.fractionDigits + significand := by
  by_cases hcode : code < 2 ^ f.fractionDigits
  · exact ⟨0, code, by omega, .inl rfl, by omega⟩
  · obtain ⟨exponent, digits, hdigits, rfl⟩ := exists_exponent_digits hcode
    exact ⟨exponent, 2 ^ f.fractionDigits + digits, by omega, .inr (by omega), by ring⟩

/-- Codes are in the order of the units that they stand for. -/
theorem units_strictMono (f : BinaryFormat) : StrictMono f.units := by
  refine strictMono_nat_of_lt_succ fun code => ?_
  obtain ⟨shift, significand, hlt, hge, rfl⟩ := f.exists_shift_add code
  rw [Nat.add_assoc, units_shift_add (Nat.le_of_lt hlt) hge,
    units_shift_add hlt (hge.imp_right fun h => Nat.le_succ_of_le h)]
  exact Nat.mul_lt_mul_of_pos_right (Nat.lt_succ_self _) (Nat.two_pow_pos _)

/-- The value of a code. -/
def value (f : BinaryFormat) (code : Nat) : ℚ :=
  f.units code / 2 ^ f.unitExponent

/-- Codes are in the order of their values. -/
theorem value_strictMono (f : BinaryFormat) : StrictMono f.value := by
  intro code code' h
  have hunits : (f.units code : ℚ) < f.units code' := Nat.cast_lt.2 (f.units_strictMono h)
  exact div_lt_div_of_pos_right hunits (by positivity)

@[simp] theorem value_zero (f : BinaryFormat) : f.value 0 = 0 := by
  simp [value, units, Nat.one_shiftLeft]

/-- The value of a code of an exponent and digits, with the powers of two that cancel left out. -/
theorem value_eq (f : BinaryFormat) (exponent digits k : Nat) (h : digits < 2 ^ f.fractionDigits)
    (hk : exponent + (f.fractionDigits + k) = f.unitExponent) :
    f.value ((exponent + 1) * 2 ^ f.fractionDigits + digits) =
      (2 ^ f.fractionDigits + digits) / 2 ^ (f.fractionDigits + k) := by
  rw [value, units_eq exponent h, ← hk, pow_add 2 exponent]
  push_cast
  field_simp

/-- The first code behind zero is one unit. -/
theorem value_one (hdigits : 0 < f.fractionDigits) : f.value 1 = 1 / 2 ^ f.unitExponent := by
  rw [value, units_of_lt (Nat.one_lt_two_pow (Nat.ne_of_gt hdigits)), Nat.cast_one]

/-- The code is that of the value which is nearest to a number, and even if another value is as
near. The code `codeCount` stands for all that is larger than the values of the format; whether it
is nearest is decided as if the exponents went on. -/
structure IsNearest (f : BinaryFormat) (x : ℚ) (code : Nat) : Prop where
  le : code ≤ f.codeCount
  nearest : ∀ c ≤ f.codeCount, |x - f.value code| ≤ |x - f.value c|
  even : ∀ c ≤ f.codeCount, c ≠ code → |x - f.value code| = |x - f.value c| → code % 2 = 0

section
variable {x y a b : ℚ} {code code' : Nat}

/-- The lesser of two values is the nearer one up to the middle between them. -/
theorem abs_sub_le_abs_sub_iff (h : a < b) : |x - a| ≤ |x - b| ↔ 2 * x ≤ a + b := by
  rw [← sq_le_sq, ← sub_nonneg, show (x - b) ^ 2 - (x - a) ^ 2 = (b - a) * (a + b - 2 * x) by ring,
    mul_nonneg_iff_of_pos_left (sub_pos.2 h), sub_nonneg]

/-- The larger of two values is the nearer one from the middle between them on. -/
theorem abs_sub_le_abs_sub_iff' (h : a < b) : |x - b| ≤ |x - a| ↔ a + b ≤ 2 * x := by
  rw [← sq_le_sq, ← sub_nonneg, show (x - a) ^ 2 - (x - b) ^ 2 = (b - a) * (2 * x - (a + b)) by ring,
    mul_nonneg_iff_of_pos_left (sub_pos.2 h), sub_nonneg]

/-- Two values are as near in the middle between them. -/
theorem abs_sub_eq_abs_sub_iff (h : a < b) : |x - a| = |x - b| ↔ 2 * x = a + b := by
  rw [le_antisymm_iff, abs_sub_le_abs_sub_iff h, abs_sub_le_abs_sub_iff' h, le_antisymm_iff]

/-- A code is the nearest one if it is nearer than its neighbours. -/
theorem isNearest_of_neighbours (hle : code ≤ f.codeCount)
    (habove : code < f.codeCount → 2 * x ≤ f.value code + f.value (code + 1) ∧
      (2 * x = f.value code + f.value (code + 1) → code % 2 = 0))
    (hbelow : ∀ c, code = c + 1 → f.value c + f.value code ≤ 2 * x ∧
      (f.value c + f.value code = 2 * x → code % 2 = 0)) : f.IsNearest x code := by
  refine ⟨hle, fun c hc => ?_, fun c hc hne htie => ?_⟩
  · rcases Nat.lt_trichotomy c code with hlt | rfl | hlt
    · obtain ⟨previous, rfl⟩ := Nat.exists_eq_add_one_of_ne_zero (Nat.ne_zero_of_lt hlt)
      have hmono : f.value c ≤ f.value previous :=
        f.value_strictMono.monotone (Nat.le_of_lt_succ hlt)
      rw [abs_sub_le_abs_sub_iff' (f.value_strictMono hlt)]
      linarith [(hbelow previous rfl).1]
    · exact le_rfl
    · have hmono : f.value (code + 1) ≤ f.value c := f.value_strictMono.monotone hlt
      rw [abs_sub_le_abs_sub_iff (f.value_strictMono hlt)]
      linarith [(habove (Nat.lt_of_lt_of_le hlt hc)).1]
  · rcases Nat.lt_or_gt_of_ne hne with hlt | hlt
    · obtain ⟨previous, rfl⟩ := Nat.exists_eq_add_one_of_ne_zero (Nat.ne_zero_of_lt hlt)
      have hmono : f.value c ≤ f.value previous :=
        f.value_strictMono.monotone (Nat.le_of_lt_succ hlt)
      have hmiddle := (abs_sub_eq_abs_sub_iff (f.value_strictMono hlt)).1 htie.symm
      exact (hbelow previous rfl).2 (by linarith [(hbelow previous rfl).1])
    · have hmono : f.value (code + 1) ≤ f.value c := f.value_strictMono.monotone hlt
      have hmiddle := (abs_sub_eq_abs_sub_iff (f.value_strictMono hlt)).1 htie
      have hnext := habove (Nat.lt_of_lt_of_le hlt hc)
      exact hnext.2 (by linarith [hnext.1])

/-- A number is nearest to a code or one below it if and only if it is not beyond the middle to the
next one, where the middle belongs to the even code. -/
theorem IsNearest.le_iff (h : f.IsNearest x code) {c : Nat} (hc : c < f.codeCount)
    (heven : c % 2 = 0) : code ≤ c ↔ 2 * x ≤ f.value c + f.value (c + 1) := by
  constructor
  · intro hle
    have hmono : f.value code ≤ f.value c := f.value_strictMono.monotone hle
    have hnext := h.nearest (c + 1) hc
    rw [abs_sub_le_abs_sub_iff (f.value_strictMono (Nat.lt_succ_of_le hle))] at hnext
    linarith
  · intro hx
    by_contra hlt
    have hlt : c < code := Nat.lt_of_not_le hlt
    have hmono : f.value (c + 1) ≤ f.value code := f.value_strictMono.monotone hlt
    have hnearest := h.nearest c (Nat.le_of_lt hc)
    rw [abs_sub_le_abs_sub_iff' (f.value_strictMono hlt)] at hnearest
    -- The number is in the middle, so the code is that next one, which is odd.
    have hnext : f.value code = f.value (c + 1) := by linarith
    obtain rfl : code = c + 1 := f.value_strictMono.injective hnext
    have htie : |x - f.value (c + 1)| = |x - f.value c| :=
      ((abs_sub_eq_abs_sub_iff (f.value_strictMono hlt)).2 (by linarith)).symm
    have hcode := h.even c (Nat.le_of_lt hc) (Nat.ne_of_lt hlt) htie
    omega

/-- A number is nearest to zero up to a half of the least positive value. -/
theorem IsNearest.eq_zero_iff (h : f.IsNearest x code) (hdigits : 0 < f.fractionDigits)
    (hcount : 0 < f.codeCount) : code = 0 ↔ x ≤ 1 / 2 ^ (f.unitExponent + 1) := by
  have hmiddle := h.le_iff hcount rfl
  rw [Nat.le_zero, value_zero, zero_add, zero_add, value_one hdigits] at hmiddle
  rw [hmiddle, pow_succ, ← div_div, le_div_iff₀ (c := 2) two_pos, mul_comm]

/-- A number has one nearest value only. -/
theorem IsNearest.unique (h : f.IsNearest x code) (h' : f.IsNearest x code') : code = code' := by
  have key {c c' : Nat} (hc : f.IsNearest x c) (hc' : f.IsNearest x c') : ¬ c < c' := by
    intro hlt
    have htie := le_antisymm (hc.nearest c' hc'.le) (hc'.nearest c hc.le)
    have heven := hc.even c' hc'.le (Nat.ne_of_gt hlt) htie
    have heven' := hc'.even c hc.le (Nat.ne_of_lt hlt) htie.symm
    -- Both are even, so there is a code between them, which is nearer.
    have hbetween : c + 1 < c' := by omega
    have hnearer := hc.nearest (c + 1) (Nat.le_trans (Nat.le_of_lt hbetween) hc'.le)
    rw [abs_sub_le_abs_sub_iff (f.value_strictMono (Nat.lt_succ_self c))] at hnearer
    rw [abs_sub_eq_abs_sub_iff (f.value_strictMono hlt)] at htie
    linarith [f.value_strictMono hbetween]
  exact Nat.le_antisymm (Nat.le_of_not_lt (key h' h)) (Nat.le_of_not_lt (key h h'))

/-- Rounding keeps the order of numbers. -/
theorem IsNearest.mono (h : f.IsNearest x code) (h' : f.IsNearest y code') (hxy : x ≤ y) :
    code ≤ code' := by
  by_contra hlt
  have hlt : code' < code := Nat.lt_of_not_le hlt
  have hx := h.nearest code' h'.le
  have hy := h'.nearest code h.le
  rw [abs_sub_le_abs_sub_iff' (f.value_strictMono hlt)] at hx
  rw [abs_sub_le_abs_sub_iff (f.value_strictMono hlt)] at hy
  -- Both numbers are in the middle, so they are the same.
  obtain rfl : x = y := by linarith
  exact Nat.ne_of_lt hlt (h'.unique h)

/-- The values of a format are not rounded. -/
theorem isNearest_value (hle : code ≤ f.codeCount) : f.IsNearest (f.value code) code := by
  refine isNearest_of_neighbours hle (fun _ => ?_) fun c hc => ?_
  · have hlt := f.value_strictMono (Nat.lt_succ_self code)
    exact ⟨by linarith, fun h => by linarith⟩
  · subst hc
    have hlt := f.value_strictMono (Nat.lt_succ_self c)
    exact ⟨by linarith, fun h => by linarith⟩

/-- What is not beyond the middle to the least positive value is rounded to zero. -/
theorem isNearest_zero_of_le (h : 2 * x ≤ f.value 1) : f.IsNearest x 0 :=
  isNearest_of_neighbours (Nat.zero_le _) (fun _ => ⟨by simpa using h, fun _ => rfl⟩) nofun

/-- What is at least the value of `codeCount` is larger than all values. -/
theorem isNearest_codeCount (h : f.value f.codeCount ≤ x) : f.IsNearest x f.codeCount := by
  refine isNearest_of_neighbours le_rfl (fun h => absurd h (lt_irrefl _)) fun c hc => ?_
  have hlt : f.value c < f.value f.codeCount := f.value_strictMono (hc ▸ Nat.lt_succ_self c)
  exact ⟨by linarith, fun h => by linarith⟩

end

/-! ## Rounding -/

section
variable {num den : Nat}

/-- Rounding shifts out the binary digits for which there is no room. -/
theorem exists_nearestUnits_eq (f : BinaryFormat) (num : Nat) (hden : 0 < den) :
    ∃ shift, f.nearestUnits num den =
        shift * 2 ^ f.fractionDigits + roundHalfEven num (den * 2 ^ shift) ∧
      roundHalfEven num (den * 2 ^ shift) ≤ 2 * 2 ^ f.fractionDigits ∧
        (shift = 0 ∨ 2 ^ f.fractionDigits * (den * 2 ^ shift) ≤ num) := by
  refine ⟨(num / den).log2 - f.fractionDigits, ?_, roundHalfEven_shift_le hden (by omega), ?_⟩
  · simp only [nearestUnits, Nat.shiftLeft_eq]
  · generalize hshift : (num / den).log2 - f.fractionDigits = shift
    rcases Nat.eq_zero_or_pos shift with hzero | hpos
    · exact .inl hzero
    · refine .inr ?_
      have hlog : (num / den).log2 = f.fractionDigits + shift := by omega
      have hquotient : num / den ≠ 0 := by
        intro h
        rw [h, Nat.log2_zero] at hlog
        omega
      calc 2 ^ f.fractionDigits * (den * 2 ^ shift) = 2 ^ (f.fractionDigits + shift) * den := by ring
        _ = 2 ^ (num / den).log2 * den := by rw [hlog]
        _ ≤ num / den * den := Nat.mul_le_mul_right _ (Nat.log2_self_le hquotient)
        _ ≤ num := Nat.div_mul_le_self num den

/-- The next code is a step of the last digit away, or more after a carry. -/
theorem le_units_succ {shift significand : Nat} (hle : significand ≤ 2 * 2 ^ f.fractionDigits)
    (hge : shift = 0 ∨ 2 ^ f.fractionDigits ≤ significand) :
    (significand + 1) * 2 ^ shift ≤ f.units (shift * 2 ^ f.fractionDigits + significand + 1) := by
  rcases Nat.lt_or_eq_of_le hle with hlt | rfl
  · rw [Nat.add_assoc, units_shift_add hlt (hge.imp_right fun h => Nat.le_succ_of_le h)]
  · have hpos : 0 < 2 ^ f.fractionDigits := Nat.two_pow_pos _
    have hcarry : f.units ((shift + 1) * 2 ^ f.fractionDigits + (2 ^ f.fractionDigits + 1)) =
        (2 ^ f.fractionDigits + 1) * 2 ^ (shift + 1) :=
      units_shift_add (by omega) (.inr (by omega))
    calc (2 * 2 ^ f.fractionDigits + 1) * 2 ^ shift
        ≤ (2 * 2 ^ f.fractionDigits + 2) * 2 ^ shift := Nat.mul_le_mul_right _ (by omega)
      _ = (2 ^ f.fractionDigits + 1) * 2 ^ (shift + 1) := by ring
      _ = f.units (shift * 2 ^ f.fractionDigits + 2 * 2 ^ f.fractionDigits + 1) := by
        rw [← hcarry]
        ring_nf

theorem parity_shift_add (hdigits : 0 < f.fractionDigits) (shift significand : Nat) :
    (shift * 2 ^ f.fractionDigits + significand) % 2 = significand % 2 := by
  obtain ⟨k, hk⟩ := Nat.exists_eq_add_one_of_ne_zero (Nat.ne_of_gt hdigits)
  rw [hk, Nat.pow_succ, ← Nat.mul_assoc, Nat.add_comm, Nat.add_mul_mod_self_right]

/-- What is rounded is not beyond the middle to the next code, and in the middle only if the code is
even. -/
theorem nearestUnits_above (hdigits : 0 < f.fractionDigits) (hden : 0 < den) {code : Nat}
    (hcode : f.nearestUnits num den = code) :
    2 * num ≤ (f.units code + f.units (code + 1)) * den ∧
      (2 * num = (f.units code + f.units (code + 1)) * den → code % 2 = 0) := by
  obtain ⟨shift, heq, hle, hge⟩ := f.exists_nearestUnits_eq num hden
  have hunit : 0 < den * 2 ^ shift := Nat.mul_pos hden (Nat.two_pow_pos _)
  obtain ⟨habove, heven, -, -⟩ := roundHalfEven_spec num hunit
  have hge : shift = 0 ∨ 2 ^ f.fractionDigits ≤ roundHalfEven num (den * 2 ^ shift) :=
    hge.imp_right (le_roundHalfEven hunit)
  generalize roundHalfEven num (den * 2 ^ shift) = significand at *
  obtain rfl : code = shift * 2 ^ f.fractionDigits + significand := hcode.symm.trans heq
  have hmiddle : (2 * significand + 1) * (den * 2 ^ shift) ≤
      (f.units (shift * 2 ^ f.fractionDigits + significand) +
        f.units (shift * 2 ^ f.fractionDigits + significand + 1)) * den := by
    calc (2 * significand + 1) * (den * 2 ^ shift)
        = (significand * 2 ^ shift + (significand + 1) * 2 ^ shift) * den := by ring
      _ ≤ _ := by
        rw [units_shift_add hle hge]
        exact Nat.mul_le_mul_right _ (Nat.add_le_add_left (le_units_succ hle hge) _)
  refine ⟨Nat.le_trans habove hmiddle, fun htie => ?_⟩
  rw [parity_shift_add hdigits]
  exact heven (Nat.le_antisymm habove (htie ▸ hmiddle))

/-- What is rounded is not beyond the middle to the code before, and in the middle only if the code
is even. -/
theorem nearestUnits_below (hdigits : 0 < f.fractionDigits) (hden : 0 < den) {c : Nat}
    (hcode : f.nearestUnits num den = c + 1) :
    (f.units c + f.units (c + 1)) * den ≤ 2 * num ∧
      ((f.units c + f.units (c + 1)) * den = 2 * num → (c + 1) % 2 = 0) := by
  obtain ⟨shift, heq, hle, hnum⟩ := f.exists_nearestUnits_eq num hden
  have hunit : 0 < den * 2 ^ shift := Nat.mul_pos hden (Nat.two_pow_pos _)
  obtain ⟨-, -, hbelow, heven⟩ := roundHalfEven_spec num hunit
  have hge : shift = 0 ∨ 2 ^ f.fractionDigits ≤ roundHalfEven num (den * 2 ^ shift) :=
    hnum.imp_right (le_roundHalfEven hunit)
  generalize roundHalfEven num (den * 2 ^ shift) = significand at *
  have hc : c + 1 = shift * 2 ^ f.fractionDigits + significand := hcode.symm.trans heq
  have hunits : f.units (c + 1) = significand * 2 ^ shift := by rw [hc, units_shift_add hle hge]
  by_cases hfirst : shift = 0 ∨ 2 ^ f.fractionDigits < significand
  · -- The code before has the same exponent.
    have hpos : 0 < significand := by
      rcases hfirst with rfl | hlt
      · omega
      · exact Nat.zero_lt_of_lt hlt
    obtain ⟨previous, rfl⟩ := Nat.exists_eq_add_one_of_ne_zero (Nat.ne_of_gt hpos)
    obtain rfl : c = shift * 2 ^ f.fractionDigits + previous := by omega
    have hprevious : f.units (shift * 2 ^ f.fractionDigits + previous) = previous * 2 ^ shift :=
      units_shift_add (by omega) (hfirst.imp_right fun h => Nat.le_of_lt_succ h)
    have hmiddle : (previous * 2 ^ shift + (previous + 1) * 2 ^ shift) * den + den * 2 ^ shift =
        2 * (previous + 1) * (den * 2 ^ shift) := by ring
    rw [hprevious, hunits]
    refine ⟨by omega, fun htie => ?_⟩
    rw [hc, parity_shift_add hdigits]
    exact heven (by omega)
  · -- The code before has a lesser exponent, and nothing has been rounded up to this one.
    obtain ⟨hshift, hsmall⟩ := not_or.1 hfirst
    obtain rfl : significand = 2 ^ f.fractionDigits := by
      have := hge.resolve_left hshift
      omega
    have hlt : f.units c < f.units (c + 1) := f.units_strictMono (Nat.lt_succ_self c)
    have hstrict : (f.units c + f.units (c + 1)) * den < 2 * num :=
      calc (f.units c + f.units (c + 1)) * den < (f.units (c + 1) + f.units (c + 1)) * den :=
            Nat.mul_lt_mul_of_pos_right (Nat.add_lt_add_right hlt _) hden
        _ = 2 * (2 ^ f.fractionDigits * (den * 2 ^ shift)) := by
          rw [hunits]
          ring
        _ ≤ 2 * num := Nat.mul_le_mul_left _ (hnum.resolve_left hshift)
    exact ⟨Nat.le_of_lt hstrict, fun htie => absurd htie (Nat.ne_of_lt hstrict)⟩

/-- The middle between two values, compared with a fraction in units of the format. -/
theorem two_mul_le_value_add_iff (hden : 0 < den) (c c' : Nat) :
    2 * (num / den : ℚ) ≤ f.value c + f.value c' ↔
      2 * (num <<< f.unitExponent) ≤ (f.units c + f.units c') * den := by
  have hpos : (0 : ℚ) < den := Nat.cast_pos.2 hden
  have hunit : (0 : ℚ) < 2 ^ f.unitExponent := by positivity
  rw [value, value, ← add_div, ← mul_div_assoc, div_le_div_iff₀ hpos hunit, Nat.shiftLeft_eq,
    ← Nat.mul_assoc, ← Nat.cast_le (α := ℚ)]
  push_cast
  rfl

/-- On which side of the middle of two values a fraction lies can be asked in whole units. -/
theorem value_add_le_two_mul_iff (hden : 0 < den) (c c' : Nat) :
    f.value c + f.value c' ≤ 2 * (num / den : ℚ) ↔
      (f.units c + f.units c') * den ≤ 2 * (num <<< f.unitExponent) := by
  have hpos : (0 : ℚ) < den := Nat.cast_pos.2 hden
  have hunit : (0 : ℚ) < 2 ^ f.unitExponent := by positivity
  rw [value, value, ← add_div, ← mul_div_assoc, div_le_div_iff₀ hunit hpos, Nat.shiftLeft_eq,
    ← Nat.mul_assoc, ← Nat.cast_le (α := ℚ)]
  push_cast
  rfl

/-- Rounding a fraction finds its nearest value, or that the fraction is larger than all values. -/
theorem isNearest_nearest (hdigits : 0 < f.fractionDigits) (num : Nat) (hden : 0 < den) :
    f.IsNearest (num / den) (min (f.nearest num den) f.codeCount) := by
  generalize hcode : f.nearest num den = code
  have habove : 2 * (num / den : ℚ) ≤ f.value code + f.value (code + 1) ∧
      (2 * (num / den : ℚ) = f.value code + f.value (code + 1) → code % 2 = 0) := by
    obtain ⟨hle, heven⟩ := nearestUnits_above hdigits hden hcode
    refine ⟨(two_mul_le_value_add_iff hden _ _).2 hle, fun htie => heven (Nat.le_antisymm hle ?_)⟩
    exact (value_add_le_two_mul_iff hden _ _).1 htie.ge
  have hbelow (c : Nat) (hc : code = c + 1) :
      f.value c + f.value code ≤ 2 * (num / den : ℚ) ∧
        (f.value c + f.value code = 2 * (num / den : ℚ) → code % 2 = 0) := by
    subst hc
    obtain ⟨hle, heven⟩ := nearestUnits_below hdigits hden hcode
    refine ⟨(value_add_le_two_mul_iff hden _ _).2 hle, fun htie => heven (Nat.le_antisymm hle ?_)⟩
    exact (two_mul_le_value_add_iff hden _ _).1 htie.ge
  rcases le_or_gt code f.codeCount with hle | hlt
  · rw [Nat.min_eq_left hle]
    exact isNearest_of_neighbours hle (fun _ => habove) hbelow
  · -- The fraction is beyond the middle between two codes that are larger than all values.
    rw [Nat.min_eq_right (Nat.le_of_lt hlt)]
    obtain ⟨c, rfl⟩ := Nat.exists_eq_add_one_of_ne_zero (Nat.ne_zero_of_lt hlt)
    have hcount : f.value f.codeCount ≤ f.value c :=
      f.value_strictMono.monotone (Nat.le_of_lt_succ hlt)
    have hnext : f.value c < f.value (c + 1) := f.value_strictMono (Nat.lt_succ_self c)
    exact isNearest_codeCount (by linarith [(hbelow c rfl).1])

end

end BinaryFormat

end RootSignature
