/-!
# Binary formats and rounding to nearest

A binary format represents the values `m · 2 ^ q` whose significand `m` has a bounded number of
binary digits and whose exponent `q` is at least some lower bound. The least positive value of a
format is its unit, and every value is a whole number of units, so that all arithmetic here is
exact and on natural numbers.

The values are numbered by their codes, in the order of their size: code `0` is zero, and the code
after a code is that of the next larger value. The code of a value is also the bit pattern that
interchange formats give to it, less the sign. `BinaryFormat.nearest` rounds a fraction to the
nearest value, halves to the even neighbour, and answers its code. The codes go on past the largest
value that the format represents, as if there were no upper bound on exponents: a result from
`codeCount` on is an overflow.
-/

namespace RootSignature

/-- The quotient `num / den` rounded to the nearest natural number, a half to the even one. -/
def roundHalfEven (num den : Nat) : Nat :=
  let quotient := num / den
  let twice := 2 * (num % den)
  if twice < den then quotient
  else if den < twice then quotient + 1
  else quotient + quotient % 2

/-- A binary format, for values that are not negative. -/
structure BinaryFormat where
  /-- The number of binary digits of a significand, less the leading one. -/
  fractionDigits : Nat
  /-- The least positive value is two to the power of minus this number. -/
  unitExponent : Nat
  /-- The number of values that are represented: a code from here on is an overflow. -/
  codeCount : Nat

namespace BinaryFormat

/-- The format of 32-bit floats. -/
def binary32 : BinaryFormat where
  fractionDigits := 23
  unitExponent := 149
  codeCount := 0x7F800000

/-- The format of 64-bit floats. -/
def binary64 : BinaryFormat where
  fractionDigits := 52
  unitExponent := 1074
  codeCount := 0x7FF0000000000000

/-- The value of a code, in units of the format. -/
def units (f : BinaryFormat) (code : Nat) : Nat :=
  let leading := 1 <<< f.fractionDigits
  if code < leading then code
  else (leading + code % leading) <<< (code / leading - 1)

/-- The code of the value that is nearest to `num / den` units, halves to the even neighbour. The
significand is rounded at the last binary digit that it has room for, and a carry out of it is the
step to the next exponent. -/
def nearestUnits (f : BinaryFormat) (num den : Nat) : Nat :=
  let shift := (num / den).log2 - f.fractionDigits
  (shift <<< f.fractionDigits) + roundHalfEven num (den <<< shift)

/-- The code of the value that is nearest to `num / den`. -/
def nearest (f : BinaryFormat) (num den : Nat) : Nat :=
  f.nearestUnits (num <<< f.unitExponent) den

end BinaryFormat

end RootSignature
