import RootSignature.Token.Basic

/-!
# Numerals

A text that starts with a digit, a sign or a point is read as a numeral: a significand, an exponent
and a suffix, the last two of which may be missing. A numeral keeps the characters of its parts, so
that its text is the parts put together again (`Numeral.toList`) and reading loses nothing
(`Numeral.toList_append_scan`).

Reading stops early where a part that needs digits has none, and the numeral that has been read so
far is then malformed. All runs of digits together have room for `maxTokenLength` characters,
counted from the start of the numeral; only the point, the mark and the sign of the exponent and
the suffix are taken beyond that.
-/

namespace RootSignature

/-! ## Taking characters off a text -/

/-- Takes one character off a text if it satisfies a condition. -/
def takeIf (p : Char → Bool) : List Char → Option Char × List Char
  | [] => (none, [])
  | c :: cs => if p c then (some c, cs) else (none, c :: cs)

/-- Takes digits off a text while there is room. -/
def takeDigits (room : Nat) (cs : List Char) : List Char × List Char :=
  let digits := (cs.take room).takeWhile Char.isDigit
  (digits, cs.drop digits.length)

theorem toList_append_takeIf (p : Char → Bool) (cs : List Char) :
    (takeIf p cs).1.toList ++ (takeIf p cs).2 = cs := by
  cases cs with
  | nil => rfl
  | cons c cs => by_cases h : p c = true <;> simp [takeIf, h]

theorem takeWhile_take_append_drop (p : Char → Bool) (room : Nat) (cs : List Char) :
    (cs.take room).takeWhile p ++ cs.drop ((cs.take room).takeWhile p).length = cs := by
  have h : (cs.take room).takeWhile p <+: cs :=
    (List.takeWhile_prefix p).trans (List.take_prefix room cs)
  obtain ⟨rest, h⟩ := h
  calc (cs.take room).takeWhile p ++ cs.drop ((cs.take room).takeWhile p).length
      = (cs.take room).takeWhile p ++
          ((cs.take room).takeWhile p ++ rest).drop ((cs.take room).takeWhile p).length := by
        rw [h]
    _ = cs := by rw [List.drop_left, h]

theorem append_takeDigits (room : Nat) (cs : List Char) :
    (takeDigits room cs).1 ++ (takeDigits room cs).2 = cs :=
  takeWhile_take_append_drop Char.isDigit room cs

/-- The number that a run of digits denotes. -/
def digitsValue (digits : List Char) : Nat :=
  Nat.ofDigitChars 10 digits 0

/-! ## Significands -/

/-- The part of a numeral before the exponent. -/
structure Significand where
  /-- The sign, if one is written. -/
  sign : Option Char
  /-- The digits before the point. -/
  whole : List Char
  /-- The digits after the point, if there is a point. -/
  fraction : Option (List Char)

namespace Significand

/-- The text of a significand. -/
def toList (s : Significand) : List Char :=
  s.sign.toList ++ s.whole ++ s.fraction.elim [] ('.' :: ·)

/-- The digits of a significand, without the point. -/
def digits (s : Significand) : List Char :=
  s.whole ++ s.fraction.getD []

/-- A sign. -/
def isSign (c : Char) : Bool :=
  c = '+' || c = '-'

/-- Reads a significand off the front of a text. -/
def scan (cs : List Char) : Significand × List Char :=
  let (sign, afterSign) := takeIf isSign cs
  let (whole, afterWhole) := takeDigits (maxTokenLength - sign.toList.length) afterSign
  match takeIf (· = '.') afterWhole with
  | (none, rest) => (⟨sign, whole, none⟩, rest)
  | (some _, afterPoint) =>
    let room := maxTokenLength - (sign.toList.length + whole.length + 1)
    let (fraction, rest) := takeDigits room afterPoint
    (⟨sign, whole, some fraction⟩, rest)

theorem toList_append_scan (cs : List Char) : (scan cs).1.toList ++ (scan cs).2 = cs := by
  have hs := toList_append_takeIf isSign cs
  have hw := append_takeDigits (maxTokenLength - (takeIf isSign cs).1.toList.length)
    (takeIf isSign cs).2
  revert hs hw
  unfold scan
  generalize takeIf isSign cs = sign
  obtain ⟨sign, afterSign⟩ := sign
  dsimp only
  generalize takeDigits (maxTokenLength - sign.toList.length) afterSign = whole
  obtain ⟨whole, afterWhole⟩ := whole
  dsimp only
  intro hs hw
  have hp := toList_append_takeIf (· = '.') afterWhole
  split
  · next rest h =>
    rw [h] at hp
    rw [← hs, ← hw, ← hp]
    simp [toList]
  · next c afterPoint h =>
    have hc : c = '.' := by
      cases afterWhole with
      | nil => simp [takeIf] at h
      | cons a as =>
        by_cases ha : a = '.'
        · simp [takeIf, ha] at h
          exact h.1.symm
        · simp [takeIf, ha] at h
    have hf := append_takeDigits (maxTokenLength - (sign.toList.length + whole.length + 1))
      afterPoint
    rw [h] at hp
    rw [← hs, ← hw, ← hp, hc]
    simp [toList, hf]

/-- A significand takes at least one character. -/
theorem toList_scan_ne_nil {c : Char}
    (h : (c.isDigit || isSign c || c = '.') = true) (cs : List Char) :
    (scan (c :: cs)).1.toList ≠ [] := by
  unfold scan
  by_cases hs : isSign c = true
  · simp only [takeIf, hs, ↓reduceIte]
    split <;> simp [toList]
  · by_cases hd : c.isDigit = true
    · simp only [takeIf, hs, Bool.false_eq_true, ↓reduceIte]
      split <;> simp [toList, takeDigits, maxTokenLength, hd]
    · have hp : c = '.' := by simpa [hs, hd] using h
      have hw : takeDigits maxTokenLength (c :: cs) = ([], c :: cs) := by
        simp [takeDigits, maxTokenLength, hd]
      simp only [takeIf, hs, Bool.false_eq_true, ↓reduceIte, Option.toList_none, List.length_nil,
        Nat.sub_zero, hw]
      simp [hp, toList]

end Significand

/-! ## Exponents -/

/-- The exponent of a numeral. -/
structure Exponent where
  /-- The letter that announces the exponent. -/
  mark : Char
  /-- The sign, if one is written. -/
  sign : Option Char
  /-- The digits of the exponent. -/
  digits : List Char

namespace Exponent

/-- The text of an exponent. -/
def toList (e : Exponent) : List Char :=
  e.mark :: (e.sign.toList ++ e.digits)

/-- The number that an exponent denotes. -/
def value (e : Exponent) : Int :=
  if e.sign = some '-' then -digitsValue e.digits else digitsValue e.digits

/-- A letter that announces an exponent. -/
def isMark (c : Char) : Bool :=
  c = 'e' || c = 'E'

/-- Reads an exponent off the front of a text if there is one. So many characters of the numeral
are before it. -/
def scan? (before : Nat) (cs : List Char) : Option Exponent × List Char :=
  match takeIf isMark cs with
  | (none, rest) => (none, rest)
  | (some mark, afterMark) =>
    let (sign, afterSign) := takeIf Significand.isSign afterMark
    let room := maxTokenLength - (before + 1 + sign.toList.length)
    let (digits, rest) := takeDigits room afterSign
    (some ⟨mark, sign, digits⟩, rest)

theorem toList_append_scan? (before : Nat) (cs : List Char) :
    (scan? before cs).1.elim [] toList ++ (scan? before cs).2 = cs := by
  have hm := toList_append_takeIf isMark cs
  unfold scan?
  split
  · next rest h =>
    rw [h] at hm
    simpa using hm
  · next mark afterMark h =>
    rw [h] at hm
    have hs := toList_append_takeIf Significand.isSign afterMark
    have hd := append_takeDigits
      (maxTokenLength - (before + 1 + (takeIf Significand.isSign afterMark).1.toList.length))
      (takeIf Significand.isSign afterMark).2
    simp only [Option.elim_some, toList, List.cons_append, List.append_assoc]
    rw [hd, hs]
    simpa using hm

end Exponent

/-! ## Numerals -/

/-- A numeral, which may be malformed. -/
structure Numeral where
  /-- The part before the exponent. -/
  significand : Significand
  /-- The exponent, if there is one. -/
  exponent : Option Exponent
  /-- The letter that makes the numeral a float, if there is one. -/
  suffix : Option Char

namespace Numeral

/-- A character that a numeral can start with. -/
def startsWith (c : Char) : Bool :=
  c.isDigit || Significand.isSign c || c = '.'

/-- A letter that makes a numeral a float. -/
def isSuffix (c : Char) : Bool :=
  c = 'f' || c = 'F'

/-- The text of a numeral. -/
def toList (n : Numeral) : List Char :=
  n.significand.toList ++ n.exponent.elim [] Exponent.toList ++ n.suffix.toList

/-- A numeral is well formed if its significand has a digit and its exponent has one too. -/
def isWellFormed (n : Numeral) : Bool :=
  !n.significand.digits.isEmpty && n.exponent.all fun e => !e.digits.isEmpty

/-- Reads a numeral off the front of a text, up to the first part that lacks digits. -/
def scan (cs : List Char) : Numeral × List Char :=
  let (significand, afterSignificand) := Significand.scan cs
  if significand.digits.isEmpty then (⟨significand, none, none⟩, afterSignificand)
  else
    let (exponent, afterExponent) :=
      Exponent.scan? significand.toList.length afterSignificand
    if exponent.any fun e => e.digits.isEmpty then (⟨significand, exponent, none⟩, afterExponent)
    else
      let (suffix, rest) := takeIf isSuffix afterExponent
      (⟨significand, exponent, suffix⟩, rest)

/-- Reading a numeral loses nothing: its text and the rest make up the text that was read. -/
theorem toList_append_scan (cs : List Char) : (scan cs).1.toList ++ (scan cs).2 = cs := by
  have hs := Significand.toList_append_scan cs
  revert hs
  unfold scan
  generalize Significand.scan cs = significand
  obtain ⟨significand, afterSignificand⟩ := significand
  dsimp only
  intro hs
  split
  · simpa [toList] using hs
  · have he := Exponent.toList_append_scan? significand.toList.length afterSignificand
    revert he
    generalize Exponent.scan? significand.toList.length afterSignificand = exponent
    obtain ⟨exponent, afterExponent⟩ := exponent
    dsimp only
    intro he
    split
    · simp only [toList, List.append_assoc, Option.toList_none, List.nil_append]
      rw [he, hs]
    · have hx := toList_append_takeIf isSuffix afterExponent
      simp only [toList, List.append_assoc]
      rw [hx, he, hs]

theorem significand_scan (cs : List Char) :
    (scan cs).1.significand = (Significand.scan cs).1 := by
  unfold scan
  dsimp only
  split
  · rfl
  · split <;> rfl

/-- A numeral takes at least one character. -/
theorem toList_scan_ne_nil {c : Char} (h : startsWith c = true) (cs : List Char) :
    (scan (c :: cs)).1.toList ≠ [] := by
  simp only [toList, significand_scan, ne_eq, List.append_eq_nil_iff, not_and]
  intro hnil
  exact absurd hnil.1 (Significand.toList_scan_ne_nil h cs)

/-- The numeral is written with a minus sign. -/
def isNegative (n : Numeral) : Bool :=
  n.significand.sign = some '-'

/-- The numeral has a point, an exponent or a suffix, so it denotes a float. -/
def isFloat (n : Numeral) : Bool :=
  n.significand.fraction.isSome || n.exponent.isSome || n.suffix.isSome

/-- The decimal that a numeral denotes. -/
def decimal (n : Numeral) : Decimal where
  negative := n.isNegative
  significand := digitsValue n.significand.digits
  exponent := n.exponent.elim 0 Exponent.value - (n.significand.fraction.getD []).length

/-- The token of a whole number: numbers with a minus sign are signed, all others are not, and
either has 32 bits. -/
def integerToken (negative : Bool) (magnitude : Nat) : Token :=
  if negative then
    if magnitude ≤ 0x80000000 then .int (Int32.ofInt (-magnitude)) else .unknown
  else if magnitude < UInt32.size then .uint (UInt32.ofNat magnitude) else .unknown

/-- The token of a numeral. -/
def token (n : Numeral) : Token :=
  if !n.isWellFormed then .unknown
  else if n.isFloat then (Binary32.ofDecimal? n.decimal).elim .unknown .float
  else integerToken n.isNegative (digitsValue n.significand.digits)

/-- A numeral is not the end. -/
theorem token_ne_eof (n : Numeral) : n.token ≠ .eof := by
  unfold token integerToken
  cases Binary32.ofDecimal? n.decimal <;> (repeat' split) <;> simp

end Numeral

end RootSignature
