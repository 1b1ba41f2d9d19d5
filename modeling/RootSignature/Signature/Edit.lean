import RootSignature.Signature.Conversion

/-!
# Editing signatures

Flags of a signature of version 1.1 can be set one by one. A place that is not there, or that does
not carry flags, is left alone.
-/

namespace RootSignature

/-- The binding with these flags, if it binds a descriptor. -/
def Binding.setDescriptorFlags {D R : Type} (flags : D) : Binding D R → Binding D R
  | .descriptor d => .descriptor { d with flags }
  | b => b

/-- The binding with these flags on one range, if it binds a table. -/
def Binding.setRangeFlags {D R : Type} (range : Nat) (flags : R) : Binding D R → Binding D R
  | .table ranges => .table (ranges.modify range fun r => { r with flags })
  | b => b

namespace Signature

variable {D R : Type}

/-- The signature with another binding in one parameter. -/
def modifyBinding (s : Signature D R) (parameter : Nat) (f : Binding D R → Binding D R) :
    Signature D R :=
  { s with parameters := s.parameters.modify parameter fun p => { p with binding := f p.binding } }

/-- The signature with these flags of the whole. -/
def setRootFlags (s : Signature D R) (flags : FlagSet RootFlag) : Signature D R :=
  { s with flags }

/-- The signature with these flags on the descriptor that a parameter binds. -/
def setDescriptorFlags (s : Signature D R) (parameter : Nat) (flags : D) : Signature D R :=
  s.modifyBinding parameter (·.setDescriptorFlags flags)

/-- The signature with these flags on a range of the table that a parameter binds. -/
def setRangeFlags (s : Signature D R) (parameter range : Nat) (flags : R) : Signature D R :=
  s.modifyBinding parameter (·.setRangeFlags range flags)

end Signature

end RootSignature
