import RootSignature.Parse

/-!
# The written form of root signatures

The grammar of the language, as relations between lists of tokens and what they stand for. Nothing
here refers to readers: `Signature.Written` says which lists of tokens are a root signature and
which one, and `RootSignature.Proofs.Grammar.Accepted` proves that exactly these are read.

A rule (`Rule`) relates lists of tokens to values. The items of a list in parentheses are related to
the values of the item types (`ConstantsItem` and the others); what the items make is then said
without regard to their order (`GivenOr`, `ConstantsItem.Makes` and the others). The order of
declarations counts, and so does that of the ranges in a table.
-/

namespace RootSignature

/-- A rule of the grammar: which lists of tokens stand for which values. -/
abbrev Rule (α : Type) := List Token → α → Prop

namespace Grammar

/-! ## Values -/

/-- A whole number without a minus sign. -/
def Number : Rule UInt32 := fun ts n => ts = [.uint n]

/-- Any number; a whole number stands for the nearest float. -/
inductive FloatNumber : Rule Binary32
  | uint (n : UInt32) : FloatNumber [.uint n] (.ofInt n.toNat)
  | int (n : Int32) : FloatNumber [.int n] (.ofInt n.toInt)
  | float (x : Binary32) : FloatNumber [.float x] x

/-- The keyword of a value. -/
def Word {α : Type} (keyword : α → Keyword) : Rule α := fun ts a => ts = [.keyword (keyword a)]

/-- A number of descriptors. -/
def Count : Rule DescriptorCount
  | ts, .bounded n => Number ts n
  | ts, .unbounded => ts = [.keyword .unbounded]

/-- A place in a table. -/
def Offset : Rule RangeOffset
  | ts, .explicit n => Number ts n
  | ts, .append => ts = [.keyword .offsetAppend]

/-- A register of a class. -/
def Register (c : RegisterClass) : Rule UInt32 := fun ts n => ts = [.register ⟨c, n⟩]

@[simp] theorem register_nil {c : RegisterClass} {n : UInt32} : ¬ Register c [] n := by
  simp [Register]

@[simp] theorem register_cons {c : RegisterClass} {t : Token} {ts : List Token} {n : UInt32} :
    Register c (t :: ts) n ↔ t = .register ⟨c, n⟩ ∧ ts = [] := by
  simp [Register]

/-- Flags with bars between them, where a relation says which tokens are which flags. -/
inductive FlagWords {F : Type} (word : Token → F → Prop) : Rule (List F)
  | single {t : Token} {f : F} : word t f → FlagWords word [t] [f]
  | cons {t : Token} {f : F} {ts : List Token} {fs : List F} :
      word t f → FlagWords word ts fs → FlagWords word (t :: .verticalBar :: ts) (f :: fs)

/-- A zero for no flags, or flags with bars between them. -/
inductive Flags {F : Type} [Flag F] (word : Token → F → Prop) : Rule (FlagSet F)
  | zero : Flags word [.uint 0] ∅
  | words {ts : List Token} {fs : List F} : FlagWords word ts fs → Flags word ts (.ofList fs)

/-- The token of a flag of the whole signature. A global signature may not call itself local. -/
def RootFlagWord (dialect : Dialect) (t : Token) (f : RootFlag) : Prop :=
  t = .keyword (.rootFlag f) ∧ ¬ (f = .localRootSignature ∧ dialect.isGlobal)

/-- The token of a flag of a descriptor. -/
def DescriptorFlagWord (t : Token) (f : DescriptorFlag) : Prop :=
  t = .keyword (.rangeFlag f.toRangeFlag)

/-- The token of a flag of a range. -/
def RangeFlagWord (t : Token) (f : RangeFlag) : Prop :=
  t = .keyword (.rangeFlag f)

/-! ## Lists -/

/-- The name of a parameter, an equals sign and a value. -/
def Named {α : Type} (p : Parameter) (value : Rule α) : Rule α := fun ts a =>
  ∃ vs, ts = .keyword (.parameter p) :: .equals :: vs ∧ value vs a

@[simp] theorem named_nil {α : Type} {p : Parameter} {value : Rule α} {a : α} :
    ¬ Named p value [] a := by
  simp [Named]

/-- What is named starts with its name. -/
@[simp] theorem named_cons {α : Type} {p : Parameter} {value : Rule α} {t : Token}
    {ts : List Token} {a : α} :
    Named p value (t :: ts) a ↔
      t = .keyword (.parameter p) ∧ ∃ vs, ts = .equals :: vs ∧ value vs a := by
  simp [Named, and_assoc]

/-- One or more values with commas between them. -/
inductive CommaList {α : Type} (item : Rule α) : Rule (List α)
  | single {ts : List Token} {a : α} : item ts a → CommaList item ts [a]
  | cons {ts ts' : List Token} {a : α} {as : List α} :
      item ts a → CommaList item ts' as → CommaList item (ts ++ .comma :: ts') (a :: as)

/-- An opening word and a list of items in parentheses, of which no two fill the same slot, and
which make a value. -/
def Construct {α β : Type} (opening : Opening) (item : Rule α) (slot? : α → Option Slot)
    (Makes : List α → β → Prop) : Rule β := fun ts b =>
  ∃ body as, ts = .keyword (.opening opening) :: .leftParen :: (body ++ [.rightParen]) ∧
    CommaList item body as ∧ (as.filterMap slot?).Nodup ∧ Makes as b

/-- A value is given by one of the items, or by none, and is then the default. -/
def GivenOr {α β : Type} (items : List α) (item : β → α) (default b : β) : Prop :=
  item b ∈ items ∨ (∀ b', item b' ∉ items) ∧ b = default

end Grammar

open Grammar

/-! ## Constants -/

namespace ConstantsItem

/-- How an item of root constants is written. -/
def Written : Rule ConstantsItem
  | ts, .valueCount n => Named .num32BitConstants Number ts n
  | ts, .register n => Grammar.Register .b ts n
  | ts, .space n => Named .space Number ts n
  | ts, .visibility v => Named .visibility (Word .visibility) ts v

/-- The slot that an item fills. -/
def slot? : ConstantsItem → Option Slot
  | valueCount _ => some (.parameter .num32BitConstants)
  | register _ => some .constantBufferRegister
  | space _ => some (.parameter .space)
  | visibility _ => some (.parameter .visibility)

/-- The number of values and the register are needed. -/
inductive Makes (items : List ConstantsItem) : RootParameterV1_1 → Prop
  | intro {count index space : UInt32} {v : ShaderVisibility} :
      valueCount count ∈ items → register index ∈ items →
      GivenOr items ConstantsItem.space 0 space → GivenOr items visibility .all v →
      Makes items ⟨.constants ⟨index, space, count⟩, v⟩

end ConstantsItem

/-! ## Descriptors -/

/-- The word that opens a descriptor. -/
def DescriptorType.opening : DescriptorType → Opening
  | cbv => .cbv
  | srv => .srv
  | uav => .uav

namespace DescriptorItem

/-- How an item of a descriptor is written. Version 1.0 has no flags. -/
def Written (dialect : Dialect) (type : DescriptorType) : Rule DescriptorItem
  | ts, .register n => Grammar.Register type.registerClass ts n
  | ts, .flags fs => dialect.version = .v1_1 ∧ Named .flags (Flags DescriptorFlagWord) ts fs
  | ts, .space n => Named .space Number ts n
  | ts, .visibility v => Named .visibility (Word .visibility) ts v

/-- The slot that an item fills. -/
def slot? : DescriptorItem → Option Slot
  | register _ => some .shaderRegister
  | flags _ => some (.parameter .flags)
  | space _ => some (.parameter .space)
  | visibility _ => some (.parameter .visibility)

/-- The register is needed. -/
inductive Makes (type : DescriptorType) (items : List DescriptorItem) : RootParameterV1_1 → Prop
  | intro {index space : UInt32} {fs : FlagSet DescriptorFlag} {v : ShaderVisibility} :
      register index ∈ items → GivenOr items DescriptorItem.space 0 space →
      GivenOr items flags ∅ fs → GivenOr items visibility .all v →
      Makes type items ⟨.descriptor ⟨type, index, space, fs⟩, v⟩

end DescriptorItem

/-! ## Tables -/

/-- The word that opens a range. -/
def RangeType.opening : RangeType → Opening
  | srv => .srv
  | uav => .uav
  | cbv => .cbv
  | sampler => .sampler

namespace RangeItem

/-- How an item of a range is written. Version 1.0 has no flags. -/
def Written (dialect : Dialect) (type : RangeType) : Rule RangeItem
  | ts, .register n => Grammar.Register type.registerClass ts n
  | ts, .count c => Named .numDescriptors Count ts c
  | ts, .space n => Named .space Number ts n
  | ts, .flags fs => dialect.version = .v1_1 ∧ Named .flags (Flags RangeFlagWord) ts fs
  | ts, .offset o => Named .offset Offset ts o

/-- The slot that an item fills. -/
def slot? : RangeItem → Option Slot
  | register _ => some .shaderRegister
  | count _ => some (.parameter .numDescriptors)
  | space _ => some (.parameter .space)
  | flags _ => some (.parameter .flags)
  | offset _ => some (.parameter .offset)

/-- The register is needed. -/
inductive Makes (type : RangeType) (items : List RangeItem) :
    DescriptorRange (FlagSet RangeFlag) → Prop
  | intro {index space : UInt32} {c : DescriptorCount} {o : RangeOffset} {fs : FlagSet RangeFlag} :
      register index ∈ items → GivenOr items count (.bounded 1) c →
      GivenOr items RangeItem.space 0 space → GivenOr items offset .append o →
      GivenOr items flags ∅ fs → Makes type items ⟨type, index, c, space, o, fs⟩

end RangeItem

/-- How a range is written. -/
def DescriptorRange.Written (dialect : Dialect) : Rule (DescriptorRange (FlagSet RangeFlag)) :=
  fun ts r => Construct r.type.opening (RangeItem.Written dialect r.type) RangeItem.slot?
    (RangeItem.Makes r.type) ts r

namespace TableItem

/-- How an item of a table is written. -/
def Written (dialect : Dialect) : Rule TableItem
  | ts, .range r => r.Written dialect ts
  | ts, .visibility v => Named .visibility (Word .visibility) ts v

/-- The slot that an item fills. Ranges can be given as often as one likes. -/
def slot? : TableItem → Option Slot
  | range _ => none
  | visibility _ => some (.parameter .visibility)

/-- The range that an item is. -/
def range? : TableItem → Option (DescriptorRange (FlagSet RangeFlag))
  | range r => some r
  | _ => none

/-- The ranges keep their order. -/
inductive Makes (items : List TableItem) : RootParameterV1_1 → Prop
  | intro {v : ShaderVisibility} :
      GivenOr items visibility .all v → Makes items ⟨.table (items.filterMap range?), v⟩

end TableItem

/-! ## Static samplers -/

namespace SamplerItem

/-- How an item of a static sampler is written. -/
def Written : Rule SamplerItem
  | ts, .filter f => Named .filter (Word .filter) ts f
  | ts, .addressU m => Named .addressU (Word .addressMode) ts m
  | ts, .addressV m => Named .addressV (Word .addressMode) ts m
  | ts, .addressW m => Named .addressW (Word .addressMode) ts m
  | ts, .mipLodBias x => Named .mipLodBias FloatNumber ts x
  | ts, .maxAnisotropy n => Named .maxAnisotropy Number ts n
  | ts, .comparison c => Named .comparisonFunc (Word .comparison) ts c
  | ts, .borderColor b => Named .borderColor (Word .borderColor) ts b
  | ts, .minLod x => Named .minLod FloatNumber ts x
  | ts, .maxLod x => Named .maxLod FloatNumber ts x
  | ts, .register n => Grammar.Register .s ts n
  | ts, .space n => Named .space Number ts n
  | ts, .visibility v => Named .visibility (Word .visibility) ts v

/-- The slot that an item fills. -/
def slot? : SamplerItem → Option Slot
  | filter _ => some (.parameter .filter)
  | addressU _ => some (.parameter .addressU)
  | addressV _ => some (.parameter .addressV)
  | addressW _ => some (.parameter .addressW)
  | mipLodBias _ => some (.parameter .mipLodBias)
  | maxAnisotropy _ => some (.parameter .maxAnisotropy)
  | comparison _ => some (.parameter .comparisonFunc)
  | borderColor _ => some (.parameter .borderColor)
  | minLod _ => some (.parameter .minLod)
  | maxLod _ => some (.parameter .maxLod)
  | register _ => some .samplerRegister
  | space _ => some (.parameter .space)
  | visibility _ => some (.parameter .visibility)

/-- The register is needed. -/
structure Makes (items : List SamplerItem) (s : StaticSampler) : Prop where
  register : SamplerItem.register s.register ∈ items
  filter : GivenOr items .filter ⟨.standard, .anisotropic⟩ s.filter
  addressU : GivenOr items .addressU .wrap s.addressU
  addressV : GivenOr items .addressV .wrap s.addressV
  addressW : GivenOr items .addressW .wrap s.addressW
  mipLodBias : GivenOr items .mipLodBias .zero s.mipLodBias
  maxAnisotropy : GivenOr items .maxAnisotropy 16 s.maxAnisotropy
  comparison : GivenOr items .comparison .lessEqual s.comparison
  borderColor : GivenOr items .borderColor .opaqueWhite s.borderColor
  minLod : GivenOr items .minLod .zero s.minLod
  maxLod : GivenOr items .maxLod .largest s.maxLod
  space : GivenOr items .space 0 s.space
  visibility : GivenOr items .visibility .all s.visibility

end SamplerItem

/-- How a static sampler is written. -/
def StaticSampler.Written : Rule StaticSampler :=
  Construct .staticSampler SamplerItem.Written SamplerItem.slot? SamplerItem.Makes

/-! ## Declarations -/

/-- How a root parameter is written. -/
inductive RootParameter.Written (dialect : Dialect) : Rule RootParameterV1_1
  | constants {ts : List Token} {p : RootParameterV1_1} :
      Construct .rootConstants ConstantsItem.Written ConstantsItem.slot? ConstantsItem.Makes ts p →
      Written dialect ts p
  | descriptor (type : DescriptorType) {ts : List Token} {p : RootParameterV1_1} :
      Construct type.opening (DescriptorItem.Written dialect type) DescriptorItem.slot?
        (DescriptorItem.Makes type) ts p →
      Written dialect ts p
  | table {ts : List Token} {p : RootParameterV1_1} :
      Construct .descriptorTable (TableItem.Written dialect) TableItem.slot? TableItem.Makes ts p →
      Written dialect ts p

/-- How a declaration is written. -/
def Declaration.Written (dialect : Dialect) : Rule Declaration
  | ts, .rootFlags fs => ∃ body, Flags (RootFlagWord dialect) body fs ∧
      ts = .keyword (.opening .rootFlags) :: .leftParen :: (body ++ [.rightParen])
  | ts, .parameter p => RootParameter.Written dialect ts p
  | ts, .staticSampler s => s.Written ts

/-- How a list of declarations is written: with commas between them, and perhaps one at the end. -/
inductive Grammar.Declarations (dialect : Dialect) : Rule (List Declaration)
  | empty : Declarations dialect [] []
  | list {ts : List Token} {ds : List Declaration} :
      CommaList (Declaration.Written dialect) ts ds → Declarations dialect ts ds
  | trailingComma {ts : List Token} {ds : List Declaration} :
      CommaList (Declaration.Written dialect) ts ds → Declarations dialect (ts ++ [.comma]) ds

/-- A signature is made of declarations: their parameters and their samplers in order, and the flags
of the whole if they are declared. -/
structure Signature.MadeOf (ds : List Declaration) (s : SignatureV1_1) : Prop where
  flags : GivenOr ds .rootFlags ∅ s.flags
  parameters : s.parameters = ds.filterMap fun
    | .parameter p => some p
    | _ => none
  staticSamplers : s.staticSamplers = ds.filterMap fun
    | .staticSampler s => some s
    | _ => none

/-- How a root signature is written. The flags of the whole are declared at most once. -/
def Signature.Written (dialect : Dialect) : Rule SignatureV1_1 := fun ts s =>
  ∃ ds, Grammar.Declarations dialect ts ds ∧ (ds.filter Declaration.isRootFlags).length ≤ 1 ∧
    Signature.MadeOf ds s

end RootSignature
