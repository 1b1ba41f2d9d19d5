import RootSignature.FlagSet

/-!
# The flags of a root signature

Flags apply to a whole root signature, to a descriptor that is bound in it directly, or to a range
of descriptors in a table. How the signature will be bound is a fourth family, which is never
written in a signature: it accompanies the request to read one.
-/

namespace RootSignature

/-- A flag of a whole root signature. -/
inductive RootFlag where
  | allowInputAssemblerInputLayout
  | denyVertexShaderRootAccess
  | denyHullShaderRootAccess
  | denyDomainShaderRootAccess
  | denyGeometryShaderRootAccess
  | denyPixelShaderRootAccess
  | allowStreamOutput
  | localRootSignature
  | denyAmplificationShaderRootAccess
  | denyMeshShaderRootAccess
  | cbvSrvUavHeapDirectlyIndexed
  | samplerHeapDirectlyIndexed
deriving DecidableEq

instance : Flag RootFlag where
  all := [.allowInputAssemblerInputLayout, .denyVertexShaderRootAccess, .denyHullShaderRootAccess,
    .denyDomainShaderRootAccess, .denyGeometryShaderRootAccess, .denyPixelShaderRootAccess,
    .allowStreamOutput, .localRootSignature, .denyAmplificationShaderRootAccess,
    .denyMeshShaderRootAccess, .cbvSrvUavHeapDirectlyIndexed, .samplerHeapDirectlyIndexed]
  bit
    | .allowInputAssemblerInputLayout => 0x1
    | .denyVertexShaderRootAccess => 0x2
    | .denyHullShaderRootAccess => 0x4
    | .denyDomainShaderRootAccess => 0x8
    | .denyGeometryShaderRootAccess => 0x10
    | .denyPixelShaderRootAccess => 0x20
    | .allowStreamOutput => 0x40
    | .localRootSignature => 0x80
    | .denyAmplificationShaderRootAccess => 0x100
    | .denyMeshShaderRootAccess => 0x200
    | .cbvSrvUavHeapDirectlyIndexed => 0x400
    | .samplerHeapDirectlyIndexed => 0x800
  words
    | .allowInputAssemblerInputLayout => ["allow", "input", "assembler", "input", "layout"]
    | .denyVertexShaderRootAccess => ["deny", "vertex", "shader", "root", "access"]
    | .denyHullShaderRootAccess => ["deny", "hull", "shader", "root", "access"]
    | .denyDomainShaderRootAccess => ["deny", "domain", "shader", "root", "access"]
    | .denyGeometryShaderRootAccess => ["deny", "geometry", "shader", "root", "access"]
    | .denyPixelShaderRootAccess => ["deny", "pixel", "shader", "root", "access"]
    | .allowStreamOutput => ["allow", "stream", "output"]
    | .localRootSignature => ["local", "root", "signature"]
    | .denyAmplificationShaderRootAccess => ["deny", "amplification", "shader", "root", "access"]
    | .denyMeshShaderRootAccess => ["deny", "mesh", "shader", "root", "access"]
    | .cbvSrvUavHeapDirectlyIndexed => ["cbv", "srv", "uav", "heap", "directly", "indexed"]
    | .samplerHeapDirectlyIndexed => ["sampler", "heap", "directly", "indexed"]

@[simp] theorem RootFlag.mem_all (f : RootFlag) : f ∈ (Flag.all : List RootFlag) := by
  cases f <;> decide

/-- A flag of a descriptor bound directly in the root signature. -/
inductive DescriptorFlag where
  | dataVolatile
  | dataStaticWhileSetAtExecute
  | dataStatic
deriving DecidableEq

/-- A flag of a range of descriptors in a table. -/
inductive RangeFlag where
  | descriptorsVolatile
  | dataVolatile
  | dataStaticWhileSetAtExecute
  | dataStatic
  | descriptorsStaticKeepingBufferBoundsChecks
deriving DecidableEq

instance : Flag RangeFlag where
  all := [.descriptorsVolatile, .dataVolatile, .dataStaticWhileSetAtExecute, .dataStatic,
    .descriptorsStaticKeepingBufferBoundsChecks]
  bit
    | .descriptorsVolatile => 0x1
    | .dataVolatile => 0x2
    | .dataStaticWhileSetAtExecute => 0x4
    | .dataStatic => 0x8
    | .descriptorsStaticKeepingBufferBoundsChecks => 0x10000
  words
    | .descriptorsVolatile => ["descriptors", "volatile"]
    | .dataVolatile => ["data", "volatile"]
    | .dataStaticWhileSetAtExecute => ["data", "static", "while", "set", "at", "execute"]
    | .dataStatic => ["data", "static"]
    | .descriptorsStaticKeepingBufferBoundsChecks =>
      ["descriptors", "static", "keeping", "buffer", "bounds", "checks"]

@[simp] theorem RangeFlag.mem_all (f : RangeFlag) : f ∈ (Flag.all : List RangeFlag) := by
  cases f <;> decide

/-- What a descriptor's flag says about data, it says about a range as well. -/
def DescriptorFlag.toRangeFlag : DescriptorFlag → RangeFlag
  | .dataVolatile => .dataVolatile
  | .dataStaticWhileSetAtExecute => .dataStaticWhileSetAtExecute
  | .dataStatic => .dataStatic

/-- The flag of a descriptor that is written like the flag of a range, if there is one. -/
def RangeFlag.toDescriptorFlag? : RangeFlag → Option DescriptorFlag
  | .dataVolatile => some .dataVolatile
  | .dataStaticWhileSetAtExecute => some .dataStaticWhileSetAtExecute
  | .dataStatic => some .dataStatic
  | .descriptorsVolatile | .descriptorsStaticKeepingBufferBoundsChecks => none

theorem RangeFlag.toDescriptorFlag?_eq_some_iff {f : RangeFlag} {d : DescriptorFlag} :
    f.toDescriptorFlag? = some d ↔ f = d.toRangeFlag := by
  cases f <;> cases d <;> decide

instance : Flag DescriptorFlag where
  all := [.dataVolatile, .dataStaticWhileSetAtExecute, .dataStatic]
  bit d := Flag.bit d.toRangeFlag
  words d := Flag.words d.toRangeFlag

@[simp] theorem DescriptorFlag.mem_all (f : DescriptorFlag) :
    f ∈ (Flag.all : List DescriptorFlag) := by
  cases f <;> decide

/-! ## How a signature will be bound -/

/-- A flag that accompanies the request to read a root signature. -/
inductive CompilationFlag where
  | globalRootSignature
  | localRootSignature
deriving DecidableEq

instance : Flag CompilationFlag where
  all := [.globalRootSignature, .localRootSignature]
  bit
    | .globalRootSignature => 0x1
    | .localRootSignature => 0x2
  words
    | .globalRootSignature => ["global", "root", "signature"]
    | .localRootSignature => ["local", "root", "signature"]

/-- How a root signature will be bound. -/
inductive BindingMode where
  /-- Nothing was said: the signature is read like a global one, but may call itself local. -/
  | unspecified
  /-- The signature is global and may not call itself local. -/
  | globalMode
  /-- The signature is local whether it says so or not. -/
  | localMode
deriving DecidableEq

/-- Both modes are asked for at once. -/
def FlagSet.isConflicting (s : FlagSet CompilationFlag) : Bool :=
  .globalRootSignature ∈ s ∧ .localRootSignature ∈ s

/-- The mode that a set of flags asks for, or `none` if it asks for both. -/
def FlagSet.bindingMode? (s : FlagSet CompilationFlag) : Option BindingMode :=
  match decide (.globalRootSignature ∈ s), decide (.localRootSignature ∈ s) with
  | true, true => none
  | true, false => some .globalMode
  | false, true => some .localMode
  | false, false => some .unspecified

theorem FlagSet.bindingMode?_eq_none_iff {s : FlagSet CompilationFlag} :
    s.bindingMode? = none ↔ s.isConflicting = true := by
  by_cases hg : .globalRootSignature ∈ s <;> by_cases hl : .localRootSignature ∈ s <;>
    simp [FlagSet.bindingMode?, FlagSet.isConflicting, hg, hl]

end RootSignature
