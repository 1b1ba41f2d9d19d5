import Mathlib.Computability.RegularExpressions
import Mathlib.Tactic.IntervalCases
import RootSignature.Proofs.Token.WrittenNumerals

/-!
# The shape of numbers

The texts of numbers are those of a regular expression (`numberShape`). A text has this shape if and
only if it is that of a written and well-formed numeral (`mem_numberShape_iff`), so the shape of what
is scanned, and that all of the shape is scanned, follow from what is known of numerals.
-/

namespace RootSignature

/-! ## The shape -/

/-- One of some characters. -/
def oneOf (cs : List Char) : RegularExpression Char :=
  (cs.map .char).sum

/-- A text of a shape or nothing. -/
def optional (r : RegularExpression Char) : RegularExpression Char :=
  1 + r

/-- A decimal digit. -/
def digitShape : RegularExpression Char :=
  oneOf ['0', '1', '2', '3', '4', '5', '6', '7', '8', '9']

/-- A run of digits that is not empty. -/
def digitsShape : RegularExpression Char :=
  digitShape * digitShape.star

/-- A significand: an optional sign and digits, of which some stand before or behind a point if
there is one. -/
def significandShape : RegularExpression Char :=
  optional (oneOf ['+', '-']) *
    (digitsShape * optional (.char '.' * digitShape.star) + .char '.' * digitsShape)

/-- An exponent: a mark, an optional sign and digits. -/
def exponentShape : RegularExpression Char :=
  oneOf ['e', 'E'] * (optional (oneOf ['+', '-']) * digitsShape)

/-- The shape of numbers. With `D` for a digit, it is
`[+-]?(D+(.D*)?|.D+)([eE][+-]?D+)?[fF]?`. -/
def numberShape : RegularExpression Char :=
  significandShape * (optional exponentShape * optional (oneOf ['f', 'F']))

section
variable {cs : List Char} {r : RegularExpression Char}

/-- A part that may be missing is empty or there. -/
theorem mem_optional_iff : cs ∈ (optional r).matches' ↔ cs = [] ∨ cs ∈ r.matches' := by
  rw [optional, RegularExpression.matches'_add, Language.mem_add]
  rfl

theorem mem_oneOf_iff {ds : List Char} : cs ∈ (oneOf ds).matches' ↔ ∃ c ∈ ds, cs = [c] := by
  induction ds with
  | nil => simp [oneOf]
  | cons d ds ih =>
      have hcons : oneOf (d :: ds) = .char d + oneOf ds := rfl
      have hchar : cs ∈ (RegularExpression.char d).matches' ↔ cs = [d] := Iff.rfl
      rw [hcons, RegularExpression.matches'_add, Language.mem_add, ih, hchar]
      simp

/-- One of some characters, or none. -/
theorem mem_optional_oneOf_iff {ds : List Char} :
    cs ∈ (optional (oneOf ds)).matches' ↔ ∃ o : Option Char, (∀ c ∈ o, c ∈ ds) ∧ o.toList = cs := by
  rw [mem_optional_iff, mem_oneOf_iff]
  constructor
  · rintro (rfl | ⟨c, hc, rfl⟩)
    · exact ⟨none, nofun, rfl⟩
    · exact ⟨some c, by simpa using hc, rfl⟩
  · rintro ⟨_ | c, ho, rfl⟩
    · exact .inl rfl
    · exact .inr ⟨c, ho c rfl, rfl⟩

/-- The digits one by one. -/
theorem isDigit_iff_mem {c : Char} :
    c.isDigit = true ↔ c ∈ ['0', '1', '2', '3', '4', '5', '6', '7', '8', '9'] := by
  constructor
  · intro h
    have hlow : 48 ≤ c.toNat := (Char.isDigit_iff_toNat.1 h).1
    have hhigh : c.toNat ≤ 57 := (Char.isDigit_iff_toNat.1 h).2
    rw [← Char.ofNat_toNat c]
    generalize c.toNat = n at hlow hhigh
    interval_cases n <;> decide
  · intro h
    simp only [List.mem_cons, List.not_mem_nil, or_false] at h
    rcases h with rfl | rfl | rfl | rfl | rfl | rfl | rfl | rfl | rfl | rfl <;> rfl

theorem mem_digitShape_iff : cs ∈ digitShape.matches' ↔ ∃ c, c.isDigit = true ∧ cs = [c] := by
  simp only [digitShape, mem_oneOf_iff, isDigit_iff_mem]

/-- The shape of any number of digits, or of none. -/
theorem mem_star_digitShape_iff :
    cs ∈ digitShape.star.matches' ↔ ∀ c ∈ cs, c.isDigit = true := by
  rw [RegularExpression.matches'_star, Language.mem_kstar]
  constructor
  · rintro ⟨pieces, rfl, hpieces⟩ c hc
    obtain ⟨piece, hpiece, hc⟩ := List.mem_flatten.1 hc
    obtain ⟨d, hd, rfl⟩ := mem_digitShape_iff.1 (hpieces piece hpiece)
    exact List.mem_singleton.1 hc ▸ hd
  · intro h
    refine ⟨cs.map ([·]), by simp [List.flatten_eq_flatMap, List.flatMap_map], ?_⟩
    intro piece hpiece
    obtain ⟨c, hc, rfl⟩ := List.mem_map.1 hpiece
    exact mem_digitShape_iff.2 ⟨c, h c hc, rfl⟩

/-- The shape of one digit or more. -/
theorem mem_digitsShape_iff :
    cs ∈ digitsShape.matches' ↔ cs ≠ [] ∧ ∀ c ∈ cs, c.isDigit = true := by
  rw [digitsShape, RegularExpression.matches'_mul, Language.mem_mul]
  constructor
  · rintro ⟨as, has, bs, hbs, rfl⟩
    obtain ⟨c, hc, rfl⟩ := mem_digitShape_iff.1 has
    exact ⟨by simp, List.forall_mem_cons.2 ⟨hc, mem_star_digitShape_iff.1 hbs⟩⟩
  · rintro ⟨hne, hcs⟩
    obtain ⟨c, cs, rfl⟩ := List.exists_cons_of_ne_nil hne
    obtain ⟨hc, hcs⟩ := List.forall_mem_cons.1 hcs
    exact ⟨[c], mem_digitShape_iff.2 ⟨c, hc, rfl⟩, cs, mem_star_digitShape_iff.2 hcs, rfl⟩

/-- A text of two shapes one after the other is divided in two. -/
theorem mem_mul_iff {r r' : RegularExpression Char} :
    cs ∈ (r * r').matches' ↔ ∃ as ∈ r.matches', ∃ bs ∈ r'.matches', as ++ bs = cs := by
  rw [RegularExpression.matches'_mul, Language.mem_mul]

theorem mem_add_iff {r r' : RegularExpression Char} :
    cs ∈ (r + r').matches' ↔ cs ∈ r.matches' ∨ cs ∈ r'.matches' := by
  rw [RegularExpression.matches'_add, Language.mem_add]

theorem mem_char_mul_iff {c : Char} :
    cs ∈ (.char c * r).matches' ↔ ∃ tail ∈ r.matches', cs = c :: tail := by
  rw [mem_mul_iff]
  constructor
  · rintro ⟨as, rfl, tail, htail, rfl⟩
    exact ⟨tail, htail, rfl⟩
  · rintro ⟨tail, htail, rfl⟩
    exact ⟨[c], rfl, tail, htail, rfl⟩

/-! ## Numerals have the shape -/

/-- The shape of a sign, or of none. -/
theorem mem_signShape_iff :
    cs ∈ (optional (oneOf ['+', '-'])).matches' ↔
      ∃ sign : Option Char, (∀ c ∈ sign, Significand.isSign c = true) ∧ sign.toList = cs := by
  rw [mem_optional_oneOf_iff]
  simp [Significand.isSign]

theorem mem_suffixShape_iff :
    cs ∈ (optional (oneOf ['f', 'F'])).matches' ↔
      ∃ suffix : Option Char, (∀ c ∈ suffix, Numeral.isSuffix c = true) ∧ suffix.toList = cs := by
  rw [mem_optional_oneOf_iff]
  simp [Numeral.isSuffix]

/-- The texts of the shape of significands are those of significands with a digit. -/
theorem mem_significandShape_iff :
    cs ∈ significandShape.matches' ↔
      ∃ s : Significand, s.IsWritten ∧ s.digits ≠ [] ∧ s.toList = cs := by
  rw [significandShape, mem_mul_iff]
  constructor
  · rintro ⟨_, hsignText, tail, htail, rfl⟩
    obtain ⟨sign, hsign, rfl⟩ := mem_signShape_iff.1 hsignText
    rcases mem_add_iff.1 htail with htail | htail
    · obtain ⟨whole, hwhole, point, hpoint, rfl⟩ := mem_mul_iff.1 htail
      obtain ⟨hne, hwhole⟩ := mem_digitsShape_iff.1 hwhole
      rcases mem_optional_iff.1 hpoint with rfl | hpoint
      · exact ⟨⟨sign, whole, none⟩, ⟨hsign, hwhole, by simp⟩, by simpa [Significand.digits] using hne,
          by simp [Significand.toList]⟩
      · obtain ⟨fraction, hfraction, rfl⟩ := mem_char_mul_iff.1 hpoint
        refine ⟨⟨sign, whole, some fraction⟩, ⟨hsign, hwhole, ?_⟩, ?_, by simp [Significand.toList]⟩
        · rintro _ ⟨⟩
          exact mem_star_digitShape_iff.1 hfraction
        · simp [Significand.digits, hne]
    · obtain ⟨fraction, hfraction, rfl⟩ := mem_char_mul_iff.1 htail
      obtain ⟨hne, hfraction⟩ := mem_digitsShape_iff.1 hfraction
      refine ⟨⟨sign, [], some fraction⟩, ⟨hsign, by simp, ?_⟩, by simpa [Significand.digits] using hne,
        by simp [Significand.toList]⟩
      rintro _ ⟨⟩
      exact hfraction
  · rintro ⟨⟨sign, whole, fraction⟩, hs, hdigits, rfl⟩
    refine ⟨sign.toList, mem_signShape_iff.2 ⟨sign, hs.sign, rfl⟩,
      whole ++ fraction.elim [] ('.' :: ·), mem_add_iff.2 ?_, by simp [Significand.toList]⟩
    have hpoint : fraction.elim [] ('.' :: ·) ∈
        (optional (.char '.' * digitShape.star)).matches' := by
      cases fraction with
      | none => exact mem_optional_iff.2 (.inl rfl)
      | some ds =>
          exact mem_optional_iff.2 (.inr (mem_char_mul_iff.2
            ⟨ds, mem_star_digitShape_iff.2 (hs.fraction ds rfl), rfl⟩))
    -- Without digits before the point there are some behind it.
    by_cases hwhole : whole = []
    · subst hwhole
      cases fraction with
      | none => simp [Significand.digits] at hdigits
      | some ds =>
          exact .inr (mem_char_mul_iff.2 ⟨ds, mem_digitsShape_iff.2
            ⟨by simpa [Significand.digits] using hdigits, hs.fraction ds rfl⟩, rfl⟩)
    · exact .inl (mem_mul_iff.2
        ⟨whole, mem_digitsShape_iff.2 ⟨hwhole, hs.whole⟩, _, hpoint, rfl⟩)

/-- The texts of the shape of exponents are those of exponents with a digit. -/
theorem mem_exponentShape_iff :
    cs ∈ exponentShape.matches' ↔
      ∃ e : Exponent, e.IsWritten ∧ e.digits ≠ [] ∧ e.toList = cs := by
  rw [exponentShape, mem_mul_iff]
  constructor
  · rintro ⟨_, hmarkText, _, htail, rfl⟩
    obtain ⟨mark, hmark, rfl⟩ := mem_oneOf_iff.1 hmarkText
    obtain ⟨_, hsignText, digits, hdigits, rfl⟩ := mem_mul_iff.1 htail
    obtain ⟨sign, hsign, rfl⟩ := mem_signShape_iff.1 hsignText
    obtain ⟨hne, hdigits⟩ := mem_digitsShape_iff.1 hdigits
    exact ⟨⟨mark, sign, digits⟩, ⟨by simpa [Exponent.isMark] using hmark, hsign, hdigits⟩, hne, rfl⟩
  · rintro ⟨⟨mark, sign, digits⟩, he, hne, rfl⟩
    have hmark : [mark] ∈ (oneOf ['e', 'E']).matches' :=
      mem_oneOf_iff.2 ⟨mark, by simpa [Exponent.isMark] using he.mark, rfl⟩
    have htail : sign.toList ++ digits ∈ (optional (oneOf ['+', '-']) * digitsShape).matches' :=
      mem_mul_iff.2 ⟨sign.toList, mem_signShape_iff.2 ⟨sign, he.sign, rfl⟩, digits,
        mem_digitsShape_iff.2 ⟨hne, he.digits⟩, rfl⟩
    exact ⟨[mark], hmark, _, htail, rfl⟩

/-- The texts of the shape of numbers are those of well-formed numerals. -/
theorem mem_numberShape_iff :
    cs ∈ numberShape.matches' ↔
      ∃ n : Numeral, n.IsWritten ∧ n.isWellFormed = true ∧ n.toList = cs := by
  rw [numberShape, mem_mul_iff]
  constructor
  · rintro ⟨_, hsignificand, _, htail, rfl⟩
    obtain ⟨s, hs, hdigits, rfl⟩ := mem_significandShape_iff.1 hsignificand
    obtain ⟨_, hexponent, _, hsuffixText, rfl⟩ := mem_mul_iff.1 htail
    obtain ⟨suffix, hsuffix, rfl⟩ := mem_suffixShape_iff.1 hsuffixText
    rcases mem_optional_iff.1 hexponent with rfl | hexponent
    · exact ⟨⟨s, none, suffix⟩, ⟨hs, nofun, hsuffix⟩, Numeral.isWellFormed_iff.2 ⟨hdigits, nofun⟩,
        by simp [Numeral.toList]⟩
    · obtain ⟨e, he, hne, rfl⟩ := mem_exponentShape_iff.1 hexponent
      refine ⟨⟨s, some e, suffix⟩, ⟨hs, ?_, hsuffix⟩, Numeral.isWellFormed_iff.2 ⟨hdigits, ?_⟩,
        by simp [Numeral.toList]⟩
      · rintro _ ⟨⟩
        exact he
      · rintro _ ⟨⟩
        exact hne
  · rintro ⟨⟨s, exponent, suffix⟩, hn, hwell, rfl⟩
    obtain ⟨hdigits, hne⟩ := Numeral.isWellFormed_iff.1 hwell
    have hexponent : exponent.elim [] Exponent.toList ∈ (optional exponentShape).matches' := by
      cases exponent with
      | none => exact mem_optional_iff.2 (.inl rfl)
      | some e =>
          exact mem_optional_iff.2 (.inr (mem_exponentShape_iff.2
            ⟨e, hn.exponent e rfl, hne e rfl, rfl⟩))
    exact ⟨s.toList, mem_significandShape_iff.2 ⟨s, hn.significand, hdigits, rfl⟩,
      _, mem_mul_iff.2 ⟨_, hexponent, _, mem_suffixShape_iff.2 ⟨suffix, hn.suffix, rfl⟩, rfl⟩,
      by simp [Numeral.toList]⟩

end

/-! ## The kind of a number -/

/-- The character is a point, the mark of an exponent or a suffix. -/
def isFloatPart (c : Char) : Bool :=
  c = '.' || Exponent.isMark c || Numeral.isSuffix c

/-- The text has a point, an exponent or a suffix. -/
def HasFloatPart (cs : List Char) : Prop :=
  ∃ c ∈ cs, isFloatPart c = true

/-- A part that makes a float stands in one of two parts of a text. -/
theorem hasFloatPart_append {as bs : List Char} :
    HasFloatPart (as ++ bs) ↔ HasFloatPart as ∨ HasFloatPart bs := by
  simp only [HasFloatPart, List.mem_append, or_and_right, exists_or]

/-- Digits alone make no float. -/
theorem not_hasFloatPart_of_isDigit {cs : List Char} (h : ∀ c ∈ cs, c.isDigit = true) :
    ¬ HasFloatPart cs := by
  rintro ⟨c, hc, hpart⟩
  have hc : c = '.' ∨ (c = 'e' ∨ c = 'E') ∨ (c = 'f' ∨ c = 'F') := by
    simpa [isFloatPart, Exponent.isMark, Numeral.isSuffix, or_assoc] using hpart
  rcases hc with rfl | (rfl | rfl) | (rfl | rfl) <;> exact absurd (h _ ‹_›) (by decide)

/-- A sign makes no float. -/
theorem not_hasFloatPart_sign {sign : Option Char} (h : ∀ c ∈ sign, Significand.isSign c = true) :
    ¬ HasFloatPart sign.toList := by
  rintro ⟨c, hc, hpart⟩
  have hsign : c = '+' ∨ c = '-' := by
    simpa [Significand.isSign] using h c (Option.mem_toList.1 hc)
  rcases hsign with rfl | rfl <;> cases hpart

namespace Numeral

variable {n : Numeral}

/-- A numeral is a float if and only if its text has a part that only floats have. -/
theorem isFloat_iff (hn : n.IsWritten) : n.isFloat = true ↔ HasFloatPart n.toList := by
  obtain ⟨⟨sign, whole, fraction⟩, exponent, suffix⟩ := n
  have hsign := not_hasFloatPart_sign hn.significand.sign
  have hwhole := not_hasFloatPart_of_isDigit hn.significand.whole
  have hfraction : HasFloatPart (fraction.elim [] ('.' :: ·)) ↔ fraction.isSome = true := by
    cases fraction with
    | none => simp [HasFloatPart]
    | some ds => exact iff_of_true ⟨'.', List.mem_cons_self .., rfl⟩ rfl
  have hexponent : HasFloatPart (exponent.elim [] Exponent.toList) ↔ exponent.isSome = true := by
    cases exponent with
    | none => simp [HasFloatPart]
    | some e =>
        refine iff_of_true ⟨e.mark, List.mem_cons_self .., ?_⟩ rfl
        simp [isFloatPart, (hn.exponent e rfl).mark]
  have hsuffix : HasFloatPart suffix.toList ↔ suffix.isSome = true := by
    cases suffix with
    | none => simp [HasFloatPart]
    | some c => exact iff_of_true ⟨c, by simp, by simp [isFloatPart, hn.suffix c rfl]⟩ rfl
  dsimp only at hsign hwhole
  simp only [isFloat, toList, Significand.toList, hasFloatPart_append, hsign, hwhole, hfraction,
    hexponent, hsuffix, Bool.or_eq_true, false_or]

/-- A numeral has a minus sign if and only if its text starts with it. -/
theorem isNegative_iff (hn : n.IsWritten) (hwell : n.isWellFormed = true) :
    n.isNegative = true ↔ n.toList.head? = some '-' := by
  obtain ⟨hdigits, -⟩ := isWellFormed_iff.1 hwell
  have hs := hn.significand
  obtain ⟨⟨sign, whole, fraction⟩, exponent, suffix⟩ := n
  cases sign with
  | some c => simp [isNegative, toList, Significand.toList]
  | none =>
      cases whole with
      | cons d ds =>
          have hd : d ≠ '-' := by
            rintro rfl
            cases hs.whole '-' (List.mem_cons_self ..)
          simp [isNegative, toList, Significand.toList, hd]
      | nil =>
          cases fraction with
          | none => simp [Significand.digits] at hdigits
          | some ds => simp [isNegative, toList, Significand.toList]

end Numeral

/-! ## The values of whole numbers -/

/-- The number that a text of digits behind an optional sign denotes. -/
def wholeNumber : List Char → Int
  | '-' :: ds => -digitsValue ds
  | '+' :: ds => digitsValue ds
  | ds => digitsValue ds

/-- A numeral without the parts of a float is read as the whole number of its digits. -/
theorem Numeral.wholeNumber_toList {n : Numeral} (hn : n.IsWritten) (hfloat : n.isFloat = false) :
    wholeNumber n.toList =
      if n.isNegative then -(digitsValue n.significand.digits : Int)
      else digitsValue n.significand.digits := by
  have hs := hn.significand
  obtain ⟨⟨sign, whole, fraction⟩, exponent, suffix⟩ := n
  obtain ⟨⟨rfl, rfl⟩, rfl⟩ : (fraction = none ∧ exponent = none) ∧ suffix = none := by
    simpa [isFloat] using hfloat
  cases sign with
  | some c =>
      have hc : c = '+' ∨ c = '-' := by simpa [Significand.isSign] using hs.sign c rfl
      rcases hc with rfl | rfl <;>
        simp [toList, Significand.toList, wholeNumber, isNegative, Significand.digits]
  | none =>
      cases whole with
      | nil => simp [toList, Significand.toList, wholeNumber, isNegative, Significand.digits]
      | cons d ds =>
          have hd : d.isDigit = true := hs.whole d (List.mem_cons_self ..)
          have hminus : d ≠ '-' := by
            rintro rfl
            cases hd
          have hplus : d ≠ '+' := by
            rintro rfl
            cases hd
          simp [toList, Significand.toList, wholeNumber, isNegative, Significand.digits, hminus,
            hplus]

/-- The token of the text of a whole number: a literal of its value if that has 32 bits, where a
number is signed if it is written with a minus sign, and a text that means nothing otherwise. -/
structure Token.OfWholeNumber (text : List Char) (t : Token) : Prop where
  unsigned : text.head? ≠ some '-' → 0 ≤ wholeNumber text ∧ wholeNumber text ≤ 2 ^ 32 - 1 →
    ∃ v, t = .uint v ∧ (v.toNat : Int) = wholeNumber text
  unsignedOutside : text.head? ≠ some '-' →
    ¬ (0 ≤ wholeNumber text ∧ wholeNumber text ≤ 2 ^ 32 - 1) → t = .unknown
  signed : text.head? = some '-' → -2 ^ 31 ≤ wholeNumber text ∧ wholeNumber text ≤ 0 →
    ∃ v, t = .int v ∧ v.toInt = wholeNumber text
  signedOutside : text.head? = some '-' →
    ¬ (-2 ^ 31 ≤ wholeNumber text ∧ wholeNumber text ≤ 0) → t = .unknown

/-- An unsigned literal is of the value of its text. -/
theorem Token.OfWholeNumber.toNat_eq {text : List Char} {v : UInt32}
    (h : (uint v).OfWholeNumber text) : (v.toNat : Int) = wholeNumber text := by
  by_cases hhead : text.head? = some '-'
  · by_cases hrange : -2 ^ 31 ≤ wholeNumber text ∧ wholeNumber text ≤ 0
    · obtain ⟨_, ⟨⟩, -⟩ := h.signed hhead hrange
    · cases h.signedOutside hhead hrange
  · by_cases hrange : 0 ≤ wholeNumber text ∧ wholeNumber text ≤ 2 ^ 32 - 1
    · obtain ⟨_, ⟨⟩, hvalue⟩ := h.unsigned hhead hrange
      exact hvalue
    · cases h.unsignedOutside hhead hrange

/-- A signed literal is of the value of its text. -/
theorem Token.OfWholeNumber.toInt_eq {text : List Char} {v : Int32}
    (h : (int v).OfWholeNumber text) : v.toInt = wholeNumber text := by
  by_cases hhead : text.head? = some '-'
  · by_cases hrange : -2 ^ 31 ≤ wholeNumber text ∧ wholeNumber text ≤ 0
    · obtain ⟨_, ⟨⟩, hvalue⟩ := h.signed hhead hrange
      exact hvalue
    · cases h.signedOutside hhead hrange
  · by_cases hrange : 0 ≤ wholeNumber text ∧ wholeNumber text ≤ 2 ^ 32 - 1
    · obtain ⟨_, ⟨⟩, -⟩ := h.unsigned hhead hrange
    · cases h.unsignedOutside hhead hrange

/-- A numeral that is not a float has the token of a whole number. -/
theorem Numeral.token_ofWholeNumber {n : Numeral} (hn : n.IsWritten) (hwell : n.isWellFormed = true)
    (hfloat : n.isFloat = false) : n.token.OfWholeNumber n.toList := by
  have hvalue := wholeNumber_toList hn hfloat
  have hhead := isNegative_iff hn hwell
  have htoken : n.token = integerToken n.isNegative (digitsValue n.significand.digits) := by
    simp [token, hwell, hfloat]
  rw [htoken]
  generalize digitsValue n.significand.digits = magnitude at hvalue
  cases hnegative : n.isNegative with
  | true =>
      simp only [hnegative, if_true] at hvalue
      have hminus : n.toList.head? = some '-' := hhead.1 hnegative
      refine ⟨fun h => absurd hminus h, fun h => absurd hminus h, fun _ hrange => ?_,
        fun _ hrange => ?_⟩
      · have hle : magnitude ≤ 0x80000000 := by
          have := hvalue ▸ hrange.1
          omega
        refine ⟨_, by rw [integerToken, if_pos rfl, if_pos hle], ?_⟩
        rw [hvalue, Int32.toInt_ofInt_of_le (by omega) (by omega)]
      · have hgt : ¬ magnitude ≤ 0x80000000 := by
          intro hle
          exact hrange ⟨by omega, by omega⟩
        rw [integerToken, if_pos rfl, if_neg hgt]
  | false =>
      simp only [hnegative, Bool.false_eq_true, if_false] at hvalue
      have hminus : n.toList.head? ≠ some '-' := fun h => by simp [hhead.2 h] at hnegative
      refine ⟨fun _ hrange => ?_, fun _ hrange => ?_, fun h => absurd h hminus,
        fun h => absurd h hminus⟩
      · have hlt : magnitude < UInt32.size := by
          have := hvalue ▸ hrange.2
          simp only [UInt32.size]
          omega
        refine ⟨_, by rw [integerToken, if_neg (by simp), if_pos hlt], ?_⟩
        rw [hvalue, UInt32.toNat_ofNat_of_lt' hlt]
      · have hge : ¬ magnitude < UInt32.size := by
          intro hlt
          simp only [UInt32.size] at hlt
          exact hrange ⟨by omega, by omega⟩
        rw [integerToken, if_neg (by simp), if_neg hge]

/-! ## Numbers among the lexemes -/

/-- The token is a whole number or a float. -/
def Token.IsNumber : Token → Prop
  | uint _ | int _ | float _ => True
  | _ => False

/-- A numeral that is a number lacks no digits. -/
theorem Numeral.isWellFormed_of_isNumber {n : Numeral} (h : n.token.IsNumber) :
    n.isWellFormed = true := by
  by_contra hwell
  have hunknown : n.token = .unknown := if_pos (by simpa using hwell)
  rw [hunknown] at h
  exact h

/-- A lexeme that is a number is a well-formed numeral. -/
theorem exists_numeral_of_isNumber {base : Location} {offset : Nat} {cs : List Char} {l : Lexeme}
    (hl : l ∈ lexemesFrom base offset cs) (h : l.token.IsNumber) :
    ∃ n : Numeral, n.IsWritten ∧ n.isWellFormed = true ∧ n.toList = l.text.toList ∧
      l.token = n.token := by
  obtain ⟨c, cs', -, htoken, htext⟩ := exists_scan_of_mem hl
  rw [htoken] at h ⊢
  rw [htext]
  unfold FirstToken.scan at h ⊢
  cases hmark : Token.ofPunctuation? c with
  | some mark =>
      rw [hmark] at h
      unfold Token.ofPunctuation? at hmark
      split at hmark <;> cases hmark <;> exact h.elim
  | none =>
      rw [hmark] at h
      dsimp only at h ⊢
      split at h
      · next hnumeral =>
          rw [if_pos hnumeral]
          have hwritten := Numeral.isWritten_scan (c :: cs')
          cases hscan : Numeral.scan (c :: cs') with
          | mk n rest =>
              rw [hscan] at h hwritten
              exact ⟨n, hwritten, Numeral.isWellFormed_of_isNumber h, rfl, rfl⟩
      · split at h
        · next hword =>
            exfalso
            revert h
            unfold Word.token
            dsimp only
            cases Register.ofWord? (Word.scan c cs').1 <;>
              cases Keyword.ofWord? (Word.scan c cs').1 <;> exact id
        · exact h.elim

/-- A whole number with a minus sign is signed, and one without is not. -/
theorem Numeral.integerToken_cases {negative : Bool} {magnitude : Nat}
    (h : (integerToken negative magnitude).IsNumber) :
    (negative = true ∧ ∃ v, integerToken negative magnitude = .int v) ∨
      negative = false ∧ ∃ v, integerToken negative magnitude = .uint v := by
  unfold integerToken at h ⊢
  cases negative with
  | true =>
      rw [if_pos rfl] at h
      split at h
      · next hle => exact .inl ⟨rfl, _, if_pos hle⟩
      · exact h.elim
  | false =>
      rw [if_neg Bool.false_ne_true] at h
      split at h
      · next hlt => exact .inr ⟨rfl, _, if_pos hlt⟩
      · exact h.elim

/-- A numeral that is a number is a float, or it is a whole number that is signed if it has a minus
sign. -/
theorem Numeral.token_cases {n : Numeral} (h : n.token.IsNumber) :
    (n.isFloat = true ∧ ∃ x, n.token = .float x) ∨
      n.isFloat = false ∧ ((n.isNegative = true ∧ ∃ v, n.token = .int v) ∨
        n.isNegative = false ∧ ∃ v, n.token = .uint v) := by
  revert h
  unfold token
  split
  · exact False.elim
  · split
    · next hfloat =>
        cases Binary32.ofDecimal? n.decimal with
        | none => exact False.elim
        | some x => exact fun _ => .inl ⟨hfloat, x, rfl⟩
    · next hfloat => exact fun h => .inr ⟨Bool.not_eq_true _ ▸ hfloat, integerToken_cases h⟩

/-- Numbers have the shape of numbers, and all texts of this shape are read as numbers. For every
lexeme that is a number, the text has the shape, tells the kind of the number and, if the number is
whole, denotes its value. The other way round, a text of the shape that is not longer than a token
can be is one lexeme wherever it stands, if what follows can not continue it, and a whole number is
then a literal of its value if that has 32 bits. -/
theorem numbers_have_shape :
    (∀ source base, ∀ l ∈ (TokenStream.ofSource source base).lexemes, l.token.IsNumber →
      l.text.toList ∈ numberShape.matches' ∧
      ((∃ x, l.token = .float x) ↔ HasFloatPart l.text.toList) ∧
      ((∃ v, l.token = .int v) ↔
        ¬ HasFloatPart l.text.toList ∧ l.text.toList.head? = some '-') ∧
      (∀ v, l.token = .uint v → (v.toNat : Int) = wholeNumber l.text.toList) ∧
      ∀ v, l.token = .int v → v.toInt = wholeNumber l.text.toList) ∧
    ∀ text rest : List Char, text ∈ numberShape.matches' → text.length ≤ 63 →
      (∀ c ∈ rest.head?, c.isDigit = false ∧ c.isAlpha = false ∧ c ≠ '.') →
      ∀ base offset, ∃ token,
        lexemesFrom base offset (text ++ rest) =
          ⟨token, String.ofList text, base.offset offset⟩ ::
            lexemesFrom base (offset + byteLength text) rest ∧
        (¬ HasFloatPart text → token.OfWholeNumber text) := by
  constructor
  · intro source base l hl hnumber
    obtain ⟨n, hn, hwell, htext, htoken⟩ := exists_numeral_of_isNumber hl hnumber
    rw [htoken] at hnumber ⊢
    rw [← htext, ← n.isFloat_iff hn, ← n.isNegative_iff hn hwell]
    refine ⟨mem_numberShape_iff.2 ⟨n, hn, hwell, rfl⟩, ?_⟩
    have hwhole (hfloat : n.isFloat = false) := n.token_ofWholeNumber hn hwell hfloat
    rcases n.token_cases hnumber with
      ⟨hfloat, x, hx⟩ | ⟨hfloat, ⟨hnegative, v, hv⟩ | ⟨hnegative, v, hv⟩⟩
    · simp [hx, hfloat]
    · have hvalue := (hv ▸ hwhole hfloat).toInt_eq
      simpa [hv, hfloat, hnegative] using hvalue
    · have hvalue := (hv ▸ hwhole hfloat).toNat_eq
      simpa [hv, hfloat, hnegative] using hvalue
  · intro text rest hshape hlength hrest base offset
    obtain ⟨n, hn, hwell, rfl⟩ := mem_numberShape_iff.1 hshape
    have hends : StartsWith (Numeral.endsBefore · = true) rest := by
      intro c hc
      simp [Numeral.endsBefore, hrest c hc]
    refine ⟨n.token, n.lexemesFrom_toList_append hn hwell hlength hends base offset, fun h => ?_⟩
    rw [← n.isFloat_iff hn, Bool.not_eq_true] at h
    exact n.token_ofWholeNumber hn hwell h

/-- The least signed number, with zeros in front of it and a parenthesis behind it. -/
theorem numbers_have_shape_least :
    "-0002147483648".toList ∈ numberShape.matches' ∧
      (∀ c ∈ [')'].head?, c.isDigit = false ∧ c.isAlpha = false ∧ c ≠ '.') ∧
      ∃ v, lexemesFrom .first 0 ("-0002147483648".toList ++ [')']) =
          ⟨.int v, "-0002147483648", Location.first.offset 0⟩ :: lexemesFrom .first 14 [')'] ∧
        v.toInt = -2147483648 := by
  have hshape : "-0002147483648".toList ∈ numberShape.matches' :=
    (numberShape.rmatch_iff_matches' _).1 (by decide +kernel)
  have hend : ∀ c ∈ [')'].head?, c.isDigit = false ∧ c.isAlpha = false ∧ c ≠ '.' := by
    intro c hc
    obtain rfl : ')' = c := Option.some.inj hc
    decide
  obtain ⟨token, hlexemes, htoken⟩ := numbers_have_shape.2 _ [')'] hshape (by decide) hend .first 0
  have hwhole : ¬ HasFloatPart "-0002147483648".toList := by
    rw [HasFloatPart, ← List.any_eq_true]
    decide +kernel
  have hrange : -2 ^ 31 ≤ wholeNumber "-0002147483648".toList ∧
      wholeNumber "-0002147483648".toList ≤ 0 := by
    decide +kernel
  obtain ⟨v, rfl, hvalue⟩ := (htoken hwhole).signed rfl hrange
  exact ⟨hshape, hend, v, hlexemes, hvalue⟩

end RootSignature
