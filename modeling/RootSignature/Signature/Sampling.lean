/-!
# Sampling

The choices that a sampler makes: how texels are filtered, what happens outside of a texture, how
comparisons are decided, and the colour of a border. Every choice has the number that a stored
description uses for it.
-/

namespace RootSignature

/-! ## Filters -/

/-- What a filter does with the texels that it has sampled. -/
inductive FilterReduction where
  | standard
  | comparison
  | minimum
  | maximum
deriving DecidableEq

namespace FilterReduction

/-- All reductions. -/
def all : List FilterReduction := [standard, comparison, minimum, maximum]

@[simp] theorem mem_all (r : FilterReduction) : r ∈ all := by
  cases r <;> decide

/-- The part of a filter's number that stands for the reduction. -/
def code : FilterReduction → UInt32
  | standard => 0x0
  | comparison => 0x80
  | minimum => 0x100
  | maximum => 0x180

end FilterReduction

/-- How texels are sampled in one respect. -/
inductive SamplingMode where
  | point
  | linear
deriving DecidableEq

namespace SamplingMode

/-- All sampling modes. -/
def all : List SamplingMode := [point, linear]

@[simp] theorem mem_all (m : SamplingMode) : m ∈ all := by
  cases m <;> decide

/-- The digit that stands for the mode. -/
def code : SamplingMode → UInt32
  | point => 0
  | linear => 1

end SamplingMode

/-- How texels are sampled. -/
inductive FilterSampling where
  /-- Anisotropic sampling. -/
  | anisotropic
  /-- A mode each for minification, for magnification and between mip levels. -/
  | isotropic (min mag mip : SamplingMode)
deriving DecidableEq

namespace FilterSampling

/-- All ways to sample. -/
def all : List FilterSampling :=
  (SamplingMode.all.flatMap fun min => SamplingMode.all.flatMap fun mag =>
    SamplingMode.all.map fun mip => isotropic min mag mip) ++ [anisotropic]

@[simp] theorem mem_all (s : FilterSampling) : s ∈ all := by
  cases s <;> simp [all]

/-- The part of a filter's number that stands for the sampling. -/
def code : FilterSampling → UInt32
  | anisotropic => 0x55
  | isotropic min mag mip => 0x10 * min.code + 0x4 * mag.code + mip.code

end FilterSampling

/-- A texture sampling filter. -/
structure Filter where
  /-- What is done with the sampled texels. -/
  reduction : FilterReduction
  /-- How texels are sampled. -/
  sampling : FilterSampling
deriving DecidableEq

namespace Filter

/-- All filters. -/
def all : List Filter :=
  FilterReduction.all.flatMap fun r => FilterSampling.all.map fun s => ⟨r, s⟩

@[simp] theorem mem_all (f : Filter) : f ∈ all := by
  obtain ⟨r, s⟩ := f
  simp [all]

/-- The number of a filter. -/
def code (f : Filter) : UInt32 :=
  f.reduction.code + f.sampling.code

end Filter

/-! ## Textures and comparisons -/

/-- How texture coordinates outside of the texture are resolved. -/
inductive TextureAddressMode where
  | wrap
  | mirror
  | clamp
  | border
  | mirrorOnce
deriving DecidableEq

namespace TextureAddressMode

/-- All address modes. -/
def all : List TextureAddressMode := [wrap, mirror, clamp, border, mirrorOnce]

@[simp] theorem mem_all (m : TextureAddressMode) : m ∈ all := by
  cases m <;> decide

/-- The number of an address mode. -/
def code : TextureAddressMode → UInt32
  | wrap => 1
  | mirror => 2
  | clamp => 3
  | border => 4
  | mirrorOnce => 5

end TextureAddressMode

/-- The comparison that a comparison sampler makes. -/
inductive ComparisonFunction where
  | never
  | less
  | equal
  | lessEqual
  | greater
  | notEqual
  | greaterEqual
  | always
deriving DecidableEq

namespace ComparisonFunction

/-- All comparisons. -/
def all : List ComparisonFunction :=
  [never, less, equal, lessEqual, greater, notEqual, greaterEqual, always]

@[simp] theorem mem_all (c : ComparisonFunction) : c ∈ all := by
  cases c <;> decide

/-- The number of a comparison. -/
def code : ComparisonFunction → UInt32
  | never => 1
  | less => 2
  | equal => 3
  | lessEqual => 4
  | greater => 5
  | notEqual => 6
  | greaterEqual => 7
  | always => 8

end ComparisonFunction

/-- The colour outside of a texture that is addressed with a border. -/
inductive BorderColor where
  | transparentBlack
  | opaqueBlack
  | opaqueWhite
  | opaqueBlackUint
  | opaqueWhiteUint
deriving DecidableEq

namespace BorderColor

/-- All border colours. -/
def all : List BorderColor :=
  [transparentBlack, opaqueBlack, opaqueWhite, opaqueBlackUint, opaqueWhiteUint]

@[simp] theorem mem_all (b : BorderColor) : b ∈ all := by
  cases b <;> decide

/-- The number of a border colour. -/
def code : BorderColor → UInt32
  | transparentBlack => 0
  | opaqueBlack => 1
  | opaqueWhite => 2
  | opaqueBlackUint => 3
  | opaqueWhiteUint => 4

end BorderColor

end RootSignature
