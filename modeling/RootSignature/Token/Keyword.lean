import RootSignature.Signature.Basic

/-!
# Keywords

The words that mean something in a root signature, grouped by what they stand for. A keyword is a
list of words: the names of declarations and of parameters are written in one piece, all others
with underscores between the words. Capitals do not matter, so the spelling of a keyword is in
lower case, and a word is looked up by its lower-case form.
-/

namespace RootSignature

/-! ## Kinds of keywords -/

/-- A word that opens a declaration or a range. -/
inductive Opening where
  | rootFlags
  | rootConstants
  | cbv
  | srv
  | uav
  | sampler
  | descriptorTable
  | staticSampler
deriving DecidableEq

namespace Opening

/-- All opening words. -/
def all : List Opening :=
  [rootFlags, rootConstants, cbv, srv, uav, sampler, descriptorTable, staticSampler]

@[simp] theorem mem_all (o : Opening) : o ∈ all := by
  cases o <;> decide

/-- The words of an opening word. -/
def words : Opening → List String
  | rootFlags => ["root", "flags"]
  | rootConstants => ["root", "constants"]
  | cbv => ["cbv"]
  | srv => ["srv"]
  | uav => ["uav"]
  | sampler => ["sampler"]
  | descriptorTable => ["descriptor", "table"]
  | staticSampler => ["static", "sampler"]

end Opening

/-- A parameter that is given by its name, an equals sign and a value. -/
inductive Parameter where
  | num32BitConstants
  | space
  | visibility
  | flags
  | numDescriptors
  | offset
  | filter
  | addressU
  | addressV
  | addressW
  | mipLodBias
  | maxAnisotropy
  | comparisonFunc
  | borderColor
  | minLod
  | maxLod
deriving DecidableEq

namespace Parameter

/-- All parameters. -/
def all : List Parameter :=
  [num32BitConstants, space, visibility, flags, numDescriptors, offset, filter, addressU, addressV,
    addressW, mipLodBias, maxAnisotropy, comparisonFunc, borderColor, minLod, maxLod]

@[simp] theorem mem_all (p : Parameter) : p ∈ all := by
  cases p <;> decide

/-- The words of a parameter's name. -/
def words : Parameter → List String
  | num32BitConstants => ["num32", "bit", "constants"]
  | space => ["space"]
  | visibility => ["visibility"]
  | flags => ["flags"]
  | numDescriptors => ["num", "descriptors"]
  | offset => ["offset"]
  | filter => ["filter"]
  | addressU => ["address", "u"]
  | addressV => ["address", "v"]
  | addressW => ["address", "w"]
  | mipLodBias => ["mip", "lod", "bias"]
  | maxAnisotropy => ["max", "anisotropy"]
  | comparisonFunc => ["comparison", "func"]
  | borderColor => ["border", "color"]
  | minLod => ["min", "lod"]
  | maxLod => ["max", "lod"]

/-- The name of a parameter as messages write it. -/
def label : Parameter → String
  | num32BitConstants => "num32BitConstants"
  | space => "space"
  | visibility => "visibility"
  | flags => "flags"
  | numDescriptors => "numDescriptors"
  | offset => "offset"
  | filter => "filter"
  | addressU => "addressU"
  | addressV => "addressV"
  | addressW => "addressW"
  | mipLodBias => "mipLODBias"
  | maxAnisotropy => "maxAnisotropy"
  | comparisonFunc => "comparisonFunc"
  | borderColor => "borderColor"
  | minLod => "minLOD"
  | maxLod => "maxLOD"

end Parameter

/-- A word with meaning in a root signature. -/
inductive Keyword where
  /-- A word that opens a declaration or a range. -/
  | opening (o : Opening)
  /-- The name of a parameter. -/
  | parameter (p : Parameter)
  /-- The count of a range without bound. -/
  | unbounded
  /-- The offset of a range that follows the one before. -/
  | offsetAppend
  /-- A flag of the whole signature. -/
  | rootFlag (f : RootFlag)
  /-- A flag of a range, and of a descriptor too if descriptors have it. -/
  | rangeFlag (f : RangeFlag)
  /-- A visibility. -/
  | visibility (v : ShaderVisibility)
  /-- A filter. -/
  | filter (f : Filter)
  /-- A texture address mode. -/
  | addressMode (m : TextureAddressMode)
  /-- A comparison. -/
  | comparison (c : ComparisonFunction)
  /-- A border colour. -/
  | borderColor (b : BorderColor)
deriving DecidableEq

/-! ## The words of values -/

/-- The word of a visibility. -/
def ShaderVisibility.word : ShaderVisibility → String
  | all => "all"
  | vertex => "vertex"
  | hull => "hull"
  | domain => "domain"
  | geometry => "geometry"
  | pixel => "pixel"
  | amplification => "amplification"
  | mesh => "mesh"

/-- The words of a reduction. The standard one is not mentioned. -/
def FilterReduction.words : FilterReduction → List String
  | standard => []
  | comparison => ["comparison"]
  | minimum => ["minimum"]
  | maximum => ["maximum"]

/-- The word of a sampling mode. -/
def SamplingMode.word : SamplingMode → String
  | point => "point"
  | linear => "linear"

/-- The words of a way to sample. A mode that applies to several stages in a row is written once,
after the last of them. -/
def FilterSampling.words : FilterSampling → List String
  | anisotropic => ["anisotropic"]
  | isotropic min mag mip =>
    "min" :: (if min = mag then [] else [min.word]) ++
      "mag" :: (if mag = mip then [] else [mag.word]) ++ ["mip", mip.word]

/-- The words of an address mode. -/
def TextureAddressMode.words : TextureAddressMode → List String
  | wrap => ["wrap"]
  | mirror => ["mirror"]
  | clamp => ["clamp"]
  | border => ["border"]
  | mirrorOnce => ["mirror", "once"]

/-- The words of a comparison. -/
def ComparisonFunction.words : ComparisonFunction → List String
  | never => ["never"]
  | less => ["less"]
  | equal => ["equal"]
  | lessEqual => ["less", "equal"]
  | greater => ["greater"]
  | notEqual => ["not", "equal"]
  | greaterEqual => ["greater", "equal"]
  | always => ["always"]

/-- The words of a border colour. -/
def BorderColor.words : BorderColor → List String
  | transparentBlack => ["transparent", "black"]
  | opaqueBlack => ["opaque", "black"]
  | opaqueWhite => ["opaque", "white"]
  | opaqueBlackUint => ["opaque", "black", "uint"]
  | opaqueWhiteUint => ["opaque", "white", "uint"]

/-! ## Spellings -/

namespace Keyword

/-- All keywords. -/
def all : List Keyword :=
  Opening.all.map opening ++ Parameter.all.map parameter ++ [unbounded, offsetAppend] ++
    (Flag.all : List RootFlag).map rootFlag ++ (Flag.all : List RangeFlag).map rangeFlag ++
    ShaderVisibility.list.map visibility ++ Filter.all.map filter ++
    TextureAddressMode.all.map addressMode ++ ComparisonFunction.all.map comparison ++
    BorderColor.all.map borderColor

/-- The words of a keyword. -/
def words : Keyword → List String
  | opening o => o.words
  | parameter p => p.words
  | unbounded => ["unbounded"]
  | offsetAppend => ["descriptor", "range", "offset", "append"]
  | rootFlag f => Flag.words f
  | rangeFlag f => Flag.words f
  | visibility v => ["shader", "visibility", v.word]
  | filter f => "filter" :: f.reduction.words ++ f.sampling.words
  | addressMode m => ["texture", "address"] ++ m.words
  | comparison c => "comparison" :: c.words
  | borderColor b => ["static", "border", "color"] ++ b.words

/-- What stands between the words of a keyword. -/
def separator : Keyword → List Char
  | opening _ | parameter _ => []
  | _ => ['_']

/-- The spelling of a keyword in lower case. -/
def spelling (k : Keyword) : List Char :=
  k.separator.intercalate (k.words.map String.toList)

/-- The name of a keyword, in which every word starts with a capital and nothing stands between. -/
def name (k : Keyword) : String :=
  String.join (k.words.map String.capitalize)

/-- The keywords with their spellings. -/
def spellings : List (List Char × Keyword) :=
  all.map fun k => (k.spelling, k)

/-- The keyword that a word spells, whatever its capitals. -/
def ofWord? (word : List Char) : Option Keyword :=
  spellings.lookup (word.map Char.toLower)

@[simp] theorem mem_all (k : Keyword) : k ∈ all := by
  cases k <;> simp [all]

end Keyword

end RootSignature
