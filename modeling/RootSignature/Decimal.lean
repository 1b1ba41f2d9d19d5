import RootSignature.Binary.Format

/-!
# Decimals

A decimal is a whole number of tenths, hundredths, tens, … with a sign that is kept also for zero.
Decimals are what numerals with a point or an exponent denote; they are rounded to a binary format
without an intermediate step.
-/

namespace RootSignature

/-- The decimal `significand · 10 ^ exponent`, with a sign. -/
structure Decimal where
  /-- The number has a minus sign, which zero can have too. -/
  negative : Bool
  /-- The digits, read as a natural number. -/
  significand : Nat
  /-- The power of ten of the last digit. -/
  exponent : Int
deriving DecidableEq

namespace Decimal

/-- The number of digits that a natural number is written with. -/
def digitCount (n : Nat) : Nat :=
  (Nat.toDigits 10 n).length

/-- An exponent at which every decimal overflows 64-bit floats, and below the negative of which
every number less than one vanishes in them. -/
def exponentLimit : Nat := 400

/-- The decimal with its exponent brought near the range of 64-bit floats. The value changes only
where it overflows, or vanishes, before and after. -/
def clamp (d : Decimal) : Decimal :=
  let least : Int := -(exponentLimit + digitCount d.significand : Nat)
  { d with exponent := max least (min exponentLimit d.exponent) }

/-- The code of the magnitude in a binary format. -/
def nearest (f : BinaryFormat) (d : Decimal) : Nat :=
  match d.exponent with
  | .ofNat k => f.nearest (d.significand * Nat.pow 10 k) 1
  | .negSucc k => f.nearest d.significand (Nat.pow 10 (k + 1))

/-- The code of the magnitude among 64-bit floats. -/
def nearest64 (d : Decimal) : Nat :=
  d.clamp.nearest .binary64

end Decimal

end RootSignature
