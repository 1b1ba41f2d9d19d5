import RootSignature.Binary.Binary32

/-!
# The shortest decimal text of a float

A float is written with the fewest decimal digits that read back as the same float, and among
those with the digits nearest to its value. The floats that a decimal is read as form an interval
around each float: its ends lie half way to the neighbours, and belong to it if the float's code is
even. The search goes through the decimal grids from coarse to fine and tests the two neighbours of
the value on each. A result has no trailing zeros, since the grid before would have held it.
-/

namespace RootSignature

/-- The numbers that are read as the float of a code, in half units, multiplied by `factor`. -/
structure RoundingInterval where
  /-- The lower end. -/
  lower : Nat
  /-- The value of the float itself. -/
  value : Nat
  /-- The upper end. -/
  upper : Nat
  /-- The ends belong to the interval. -/
  closed : Bool

namespace RoundingInterval

/-- The interval of a positive 32-bit float, in half units of the format. -/
def ofCode (code : Nat) : RoundingInterval :=
  let units := BinaryFormat.binary32.units
  { lower := units (code - 1) + units code
    value := 2 * units code
    upper := units code + units (code + 1)
    closed := code % 2 = 0 }

/-- The same interval on a scale that is finer by a factor. -/
def scale (i : RoundingInterval) (factor : Nat) : RoundingInterval :=
  { i with lower := i.lower * factor, value := i.value * factor, upper := i.upper * factor }

/-- A number lies in the interval. -/
def contains (i : RoundingInterval) (n : Nat) : Bool :=
  if i.closed then i.lower ≤ n && n ≤ i.upper else i.lower < n && n < i.upper

/-- The multiple of `step` in the interval that is nearest to the value, a half upwards. Only the
two multiples next to the value are looked at: if the interval holds any, it holds one of them. -/
def multiple? (i : RoundingInterval) (step : Nat) : Option Nat :=
  let below := i.value / step
  match i.contains (below * step), i.contains ((below + 1) * step) with
  | true, true => some (if 2 * (i.value % step) < step then below else below + 1)
  | true, false => some below
  | false, true => some (below + 1)
  | false, false => none

end RoundingInterval

namespace Binary32

/-- The multiple of a power of ten that reads back as the float of a code, if there is one. -/
def decimalAt? (code : Nat) (exponent : Int) : Option Nat :=
  let interval := RoundingInterval.ofCode code
  let half := 1 <<< (BinaryFormat.binary32.unitExponent + 1)
  match exponent with
  | .ofNat k => interval.multiple? (half * Nat.pow 10 k)
  | .negSucc k => (interval.scale (Nat.pow 10 (k + 1))).multiple? half

/-- The shortest decimal that reads back as a float other than zero. -/
def shortestDecimal (x : Binary32) : Decimal :=
  -- From the largest power of ten near a float down to nine digits of the smallest float.
  let exponents := (List.range 100).map fun (i : Nat) => (40 - i : Int)
  (exponents.findSome? fun e => (decimalAt? x.code e).map (⟨x.isNegative, ·, e⟩)).getD
    ⟨x.isNegative, 0, 0⟩

end Binary32

/-! ## Texts -/

namespace Decimal

/-- The decimal with its digits in place and a point, with at least one digit on either side. -/
def positionalText (digits : List Char) (exponent : Int) : List Char :=
  match exponent with
  | .ofNat k => digits ++ List.replicate k '0' ++ ['.', '0']
  | .negSucc k =>
    let fraction := k + 1
    if fraction < digits.length then
      digits.take (digits.length - fraction) ++ '.' :: digits.drop (digits.length - fraction)
    else ['0', '.'] ++ List.replicate (fraction - digits.length) '0' ++ digits

/-- The decimal with one digit before the point, which is left out if none follow, and a power of
ten. -/
def scientificText (digits : List Char) (leading : Int) : List Char :=
  let fraction := if digits.length ≤ 1 then [] else '.' :: digits.drop 1
  digits.take 1 ++ fraction ++ 'e' :: (toString leading).toList

/-- The text of a decimal: positional if its first digit stands between the fourth place after the
point and the sixteenth before it, scientific otherwise. -/
def text (d : Decimal) : String :=
  let digits := Nat.toDigits 10 d.significand
  let leading := d.exponent + digits.length - 1
  let magnitude :=
    if d.significand = 0 then ['0', '.', '0']
    else if -4 ≤ leading ∧ leading ≤ 15 then positionalText digits d.exponent
    else scientificText digits leading
  String.ofList (if d.negative then '-' :: magnitude else magnitude)

end Decimal

/-- The shortest text of a finite float. -/
def Binary32.text (x : Binary32) : String :=
  (if x.code = 0 then ⟨x.isNegative, 0, 0⟩ else x.shortestDecimal : Decimal).text

end RootSignature
