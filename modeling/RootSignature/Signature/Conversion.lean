import RootSignature.Signature.Basic

/-!
# Conversion between versions

A signature of version 1.0 says the same as one of version 1.1 in which everything that may change
is declared volatile: upgrading writes these flags down. Version 1.0 can not say anything else, and
does not even know the flags, so a signature of version 1.1 is downgraded only if no descriptor and
no range carries a flag; otherwise the first that does, by parameter and then by range, is blamed.
Both ways leave everything but the flags as it is.
-/

namespace RootSignature

variable {D R D' R' : Type}

/-! ## Changing the flags -/

/-- The descriptor with other flags. -/
def RootDescriptor.withFlags (d : RootDescriptor D) (flags : D') : RootDescriptor D' :=
  { type := d.type, register := d.register, space := d.space, flags }

/-- The range with other flags. -/
def DescriptorRange.withFlags (r : DescriptorRange R) (flags : R') : DescriptorRange R' :=
  { type := r.type, register := r.register, count := r.count, space := r.space,
    offset := r.offset, flags }

/-- The binding with the flags that are computed for each descriptor and each range. -/
def Binding.mapFlags (descriptor : RootDescriptor D → D') (range : DescriptorRange R → R') :
    Binding D R → Binding D' R'
  | .constants c => .constants c
  | .descriptor d => .descriptor (d.withFlags (descriptor d))
  | .table ranges => .table (ranges.map fun r => r.withFlags (range r))

/-- The signature with the flags that are computed for each descriptor and each range. The flags
of the whole signature stay. -/
def Signature.mapFlags (descriptor : RootDescriptor D → D') (range : DescriptorRange R → R')
    (s : Signature D R) : Signature D' R' where
  flags := s.flags
  parameters := s.parameters.map fun p =>
    { binding := p.binding.mapFlags descriptor range, visibility := p.visibility }
  staticSamplers := s.staticSamplers

/-- The signature without the flags of descriptors and ranges. -/
def Signature.eraseFlags : Signature D R → SignatureV1_0 :=
  mapFlags (fun _ => ()) (fun _ => ())

/-! ## Upgrading -/

/-- The flags that version 1.0 takes for granted on ranges of a type. Samplers have no data that
could be volatile. -/
def RangeType.volatileFlags : RangeType → FlagSet RangeFlag
  | .sampler => {.descriptorsVolatile}
  | .srv | .uav | .cbv => {.descriptorsVolatile} ∪ {.dataVolatile}

/-- The signature of version 1.1 that binds in the same way. -/
def Signature.upgrade : SignatureV1_0 → SignatureV1_1 :=
  mapFlags (fun _ => {.dataVolatile}) (fun r => r.type.volatileFlags)

/-! ## Downgrading -/

/-- What keeps a signature from being described in version 1.0. -/
inductive ConversionError where
  /-- The descriptor that a parameter binds carries flags. -/
  | descriptorFlags (parameter : Nat)
  /-- A range in the table that a parameter binds carries flags. -/
  | rangeFlags (parameter range : Nat)
deriving DecidableEq

namespace ConversionError

/-- The text of a conversion error. -/
def message : ConversionError → String
  | descriptorFlags i =>
    s!"root descriptor flags on parameter {i} can not be represented in {Version.v1_0}"
  | rangeFlags i j =>
    s!"descriptor range flags on range {j} of parameter {i} can not be represented in " ++
      toString Version.v1_0

end ConversionError

/-- The first place in the binding of the parameter with index `i` that carries flags. -/
def Binding.firstFlagged? (i : Nat) :
    Binding (FlagSet DescriptorFlag) (FlagSet RangeFlag) → Option ConversionError
  | .constants _ => none
  | .descriptor d => if d.flags.isEmpty then none else some (.descriptorFlags i)
  | .table ranges => (ranges.findIdx? fun r => !r.flags.isEmpty).map (.rangeFlags i)

/-- The first place in a signature that carries flags, by parameter and then by range. -/
def Signature.firstFlagged? (s : SignatureV1_1) : Option ConversionError :=
  s.parameters.zipIdx.findSome? fun (p, i) => p.binding.firstFlagged? i

/-- The signature without flags on descriptors and ranges, if it has none. -/
def Signature.downgrade (s : SignatureV1_1) : Except ConversionError SignatureV1_0 :=
  match s.firstFlagged? with
  | some error => .error error
  | none => .ok s.eraseFlags

/-! ## Signatures of either version -/

/-- A root signature together with the version of its description. -/
inductive VersionedSignature where
  /-- A signature of version 1.0. -/
  | v1_0 (signature : SignatureV1_0)
  /-- A signature of version 1.1. -/
  | v1_1 (signature : SignatureV1_1)
deriving DecidableEq

namespace VersionedSignature

/-- The version of the description. -/
def version : VersionedSignature → Version
  | v1_0 _ => .v1_0
  | v1_1 _ => .v1_1

/-- The same signature in another version. A signature that has the version already is the
answer. -/
def convert : VersionedSignature → Version → Except ConversionError VersionedSignature
  | v1_0 s, .v1_0 => .ok (v1_0 s)
  | v1_0 s, .v1_1 => .ok (v1_1 s.upgrade)
  | v1_1 s, .v1_0 => s.downgrade.map v1_0
  | v1_1 s, .v1_1 => .ok (v1_1 s)

end VersionedSignature

end RootSignature
