import RootSignature.Binary.Binary32
import RootSignature.Signature.Flags
import RootSignature.Signature.Sampling
import RootSignature.Signature.Version

/-!
# Root signatures

A root signature says how a program finds its resources: flags of the whole, a list of parameters
and a list of samplers that are fixed in the signature. A parameter holds constants, or binds one
descriptor, or binds a table of descriptor ranges.

The two versions of the description differ only in the flags that descriptors and ranges carry. So
one family of types serves both, with the two kinds of flags as parameters: `SignatureV1_0` carries
nothing in their place, `SignatureV1_1` carries sets of flags.
-/

namespace RootSignature

/-! ## Parts that both versions share -/

/-- The shader stages that see a parameter or a sampler. -/
inductive ShaderVisibility where
  | all
  | vertex
  | hull
  | domain
  | geometry
  | pixel
  | amplification
  | mesh
deriving DecidableEq

namespace ShaderVisibility

/-- All visibilities. -/
def list : List ShaderVisibility :=
  [all, vertex, hull, domain, geometry, pixel, amplification, mesh]

@[simp] theorem mem_list (v : ShaderVisibility) : v ∈ list := by
  cases v <;> decide

/-- The number of a visibility. -/
def code : ShaderVisibility → UInt32
  | all => 0
  | vertex => 1
  | hull => 2
  | domain => 3
  | geometry => 4
  | pixel => 5
  | amplification => 6
  | mesh => 7

end ShaderVisibility

/-- The number that stands for a count without bound and for an offset that is not given. -/
def unlimited : UInt32 := 0xFFFFFFFF

/-- The number of descriptors in a range. -/
inductive DescriptorCount where
  /-- So many descriptors. -/
  | bounded (count : UInt32)
  /-- The range extends to the end of the heap. -/
  | unbounded
deriving DecidableEq

/-- The number that a stored description uses for a count. -/
def DescriptorCount.code : DescriptorCount → UInt32
  | .bounded count => count
  | .unbounded => unlimited

/-- The place of a range in its table. -/
inductive RangeOffset where
  /-- The range starts so many descriptors into the table. -/
  | explicit (offset : UInt32)
  /-- The range starts directly after the range before it. -/
  | append
deriving DecidableEq

/-- The number that a stored description uses for an offset. -/
def RangeOffset.code : RangeOffset → UInt32
  | .explicit offset => offset
  | .append => unlimited

/-- The type of a descriptor that is bound directly in the root signature. -/
inductive DescriptorType where
  /-- A constant buffer view. -/
  | cbv
  /-- A shader resource view. -/
  | srv
  /-- An unordered access view. -/
  | uav
deriving DecidableEq

/-- The number of a descriptor type. -/
def DescriptorType.code : DescriptorType → UInt32
  | .cbv => 2
  | .srv => 3
  | .uav => 4

/-- The type of the descriptors in a range. -/
inductive RangeType where
  /-- Shader resource views. -/
  | srv
  /-- Unordered access views. -/
  | uav
  /-- Constant buffer views. -/
  | cbv
  /-- Samplers. -/
  | sampler
deriving DecidableEq

/-- The number of a range type. -/
def RangeType.code : RangeType → UInt32
  | .srv => 0
  | .uav => 1
  | .cbv => 2
  | .sampler => 3

/-- Constants that are stored in the root signature and read through a constant buffer register. -/
structure RootConstants where
  /-- The constant buffer register. -/
  register : UInt32
  /-- The space of the register. -/
  space : UInt32
  /-- The number of 32-bit values. -/
  valueCount : UInt32
deriving DecidableEq

/-- A sampler that is fixed in the root signature. -/
@[ext] structure StaticSampler where
  /-- The sampler register. -/
  register : UInt32
  /-- How texels are filtered. -/
  filter : Filter := ⟨.standard, .anisotropic⟩
  /-- The address mode of the first coordinate. -/
  addressU : TextureAddressMode := .wrap
  /-- The address mode of the second coordinate. -/
  addressV : TextureAddressMode := .wrap
  /-- The address mode of the third coordinate. -/
  addressW : TextureAddressMode := .wrap
  /-- What is added to the computed mip level. -/
  mipLodBias : Binary32 := .zero
  /-- The limit of anisotropy. -/
  maxAnisotropy : UInt32 := 16
  /-- The comparison of a comparison filter. -/
  comparison : ComparisonFunction := .lessEqual
  /-- The colour outside of the texture. -/
  borderColor : BorderColor := .opaqueWhite
  /-- The least mip level. -/
  minLod : Binary32 := .zero
  /-- The greatest mip level. -/
  maxLod : Binary32 := .largest
  /-- The space of the register. -/
  space : UInt32 := 0
  /-- The stages that see the sampler. -/
  visibility : ShaderVisibility := .all
deriving DecidableEq

/-! ## Parts that carry flags -/

/-- A descriptor that is bound directly in the root signature. -/
structure RootDescriptor (D : Type) where
  /-- The type of the descriptor. -/
  type : DescriptorType
  /-- The register, of the class that belongs to the type. -/
  register : UInt32
  /-- The space of the register. -/
  space : UInt32
  /-- The flags of the descriptor. -/
  flags : D
deriving DecidableEq

/-- A run of descriptors in a table. -/
structure DescriptorRange (R : Type) where
  /-- The type of the descriptors. -/
  type : RangeType
  /-- The first register, of the class that belongs to the type. -/
  register : UInt32
  /-- The number of descriptors. -/
  count : DescriptorCount := .bounded 1
  /-- The space of the registers. -/
  space : UInt32 := 0
  /-- The place in the table. -/
  offset : RangeOffset := .append
  /-- The flags of the range. -/
  flags : R
deriving DecidableEq

/-- What a root parameter binds. -/
inductive Binding (D R : Type) where
  /-- Constants in the signature. -/
  | constants (constants : RootConstants)
  /-- One descriptor. -/
  | descriptor (descriptor : RootDescriptor D)
  /-- A table of ranges of descriptors. -/
  | table (ranges : List (DescriptorRange R))
deriving DecidableEq

/-- A root parameter. -/
structure RootParameter (D R : Type) where
  /-- What the parameter binds. -/
  binding : Binding D R
  /-- The stages that see the parameter. -/
  visibility : ShaderVisibility
deriving DecidableEq

/-- A root signature whose descriptors carry `D` and whose ranges carry `R` as flags. -/
@[ext] structure Signature (D R : Type) where
  /-- The flags of the whole signature. -/
  flags : FlagSet RootFlag := ∅
  /-- The parameters, in their order. -/
  parameters : List (RootParameter D R) := []
  /-- The samplers fixed in the signature, in their order. -/
  staticSamplers : List StaticSampler := []
deriving DecidableEq

/-- A root signature of version 1.0. -/
abbrev SignatureV1_0 := Signature Unit Unit

/-- A root signature of version 1.1. -/
abbrev SignatureV1_1 := Signature (FlagSet DescriptorFlag) (FlagSet RangeFlag)

end RootSignature
