import RootSignature.Decimal

/-!
# 32-bit floats

A 32-bit float is its bit pattern: a sign and the code of a magnitude. Whole numbers are rounded
once; decimals are rounded to a 64-bit float first, which is then rounded again, and a decimal has
no 32-bit float if the first rounding loses it to zero or takes it past the largest 32-bit float.
-/

namespace RootSignature

/-- A 32-bit float, by its bits. -/
@[ext] structure Binary32 where
  /-- The sign bit, followed by the code of the magnitude. -/
  bits : UInt32
deriving DecidableEq

namespace Binary32

open BinaryFormat (binary32 binary64)

/-- The bit of the sign. -/
def signBit : Nat := 0x80000000

/-- The float of a sign and the code of a magnitude. -/
def ofCode (negative : Bool) (code : Nat) : Binary32 :=
  ⟨UInt32.ofNat (code + if negative then signBit else 0)⟩

/-- The float has a minus sign. -/
def isNegative (x : Binary32) : Bool :=
  signBit ≤ x.bits.toNat

/-- The code of the magnitude. -/
def code (x : Binary32) : Nat :=
  x.bits.toNat % signBit

/-- The float is a number, and neither infinite. -/
def isFinite (x : Binary32) : Bool :=
  x.code < binary32.codeCount

/-- Positive zero. -/
def zero : Binary32 := ⟨0⟩

/-- The largest float. -/
def largest : Binary32 := ofCode false (binary32.codeCount - 1)

/-- The float nearest to a whole number. Zero is positive. -/
def ofInt (n : Int) : Binary32 :=
  ofCode (n < 0) (binary32.nearest n.natAbs 1)

/-- The largest float, in units of 64-bit floats. -/
def largestUnits64 : Nat :=
  binary32.units (binary32.codeCount - 1) <<< (binary64.unitExponent - binary32.unitExponent)

/-- The float of a decimal, rounded by way of a 64-bit float. There is none if the 64-bit float is
zero although the decimal is not, or if it is larger than the largest 32-bit float. -/
def ofDecimal? (d : Decimal) : Option Binary32 :=
  let wide := binary64.units d.nearest64
  if wide = 0 ∧ d.significand ≠ 0 then none
  else if largestUnits64 < wide then none
  else some (ofCode d.negative (binary32.nearest wide (1 <<< binary64.unitExponent)))

end Binary32

end RootSignature
