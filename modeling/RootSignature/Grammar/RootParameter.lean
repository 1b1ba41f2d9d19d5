import RootSignature.Grammar.FlagList
import RootSignature.Grammar.Items

/-!
# Root parameters

The declarations of root constants, of descriptors and of descriptor tables with their ranges. For
each there is a type of items, a function that tells by its first token how an item is read
(`ofToken?`), and a function that makes the parameter or range out of its items (`ofItems`). Since
no item that counts is given twice, the order of the items does not matter to `ofItems`, except that
of the ranges in a table.
-/

namespace RootSignature

/-- A root parameter of version 1.1. -/
abbrev RootParameterV1_1 := RootParameter (FlagSet DescriptorFlag) (FlagSet RangeFlag)

/-! ## Constants -/

/-- An item of root constants. -/
inductive ConstantsItem where
  | valueCount (count : UInt32)
  | register (index : UInt32)
  | space (space : UInt32)
  | visibility (visibility : ShaderVisibility)
deriving DecidableEq

namespace ConstantsItem

/-- How the item of root constants is read that starts with a token. -/
def ofToken? : Token → Option (Item ConstantsItem)
  | .keyword (.parameter .num32BitConstants) =>
    some (.named .num32BitConstants (valueCount <$> Reader.uint))
  | .register ⟨.b, _⟩ => some ⟨some .constantBufferRegister, register <$> Reader.register .b⟩
  | .keyword (.parameter .space) => some (.named .space (space <$> Reader.uint))
  | .keyword (.parameter .visibility) =>
    some (.named .visibility (visibility <$> Reader.visibility))
  | _ => none

/-- The parameter that a list of items makes. -/
def ofItems (items : List ConstantsItem) : Except RequiredParameter RootParameterV1_1 := do
  let valueCount ← RequiredParameter.num32BitConstants.require <| items.findSome? fun
    | .valueCount n => some n
    | _ => none
  let register ← RequiredParameter.constantBufferRegister.require <| items.findSome? fun
    | .register n => some n
    | _ => none
  let space? := items.findSome? fun
    | .space n => some n
    | _ => none
  let visibility? := items.findSome? fun
    | .visibility v => some v
    | _ => none
  return {
    binding := .constants { register, space := space?.getD 0, valueCount }
    visibility := visibility?.getD .all }

end ConstantsItem

/-- Root constants, from the opening word on. -/
def Reader.rootConstants : Reader RootParameterV1_1 :=
  construct ConstantsItem.ofToken? ConstantsItem.ofItems

/-! ## Descriptors -/

/-- The class of the register of a descriptor. -/
def DescriptorType.registerClass : DescriptorType → RegisterClass
  | .cbv => .b
  | .srv => .t
  | .uav => .u

/-- An item of a descriptor. -/
inductive DescriptorItem where
  | register (index : UInt32)
  | flags (flags : FlagSet DescriptorFlag)
  | space (space : UInt32)
  | visibility (visibility : ShaderVisibility)
deriving DecidableEq

namespace DescriptorItem

/-- How the item of a descriptor is read that starts with a token. A register of a wrong class is
read as the register of the descriptor, and refused, unless it is a sampler register. -/
def ofToken? (dialect : Dialect) (type : DescriptorType) : Token → Option (Item DescriptorItem)
  | .register ⟨.s, _⟩ => none
  | .register _ => some ⟨some .shaderRegister, register <$> Reader.register type.registerClass⟩
  | .keyword (.parameter .flags) =>
    some ⟨some (.parameter .flags), flags <$> Reader.parameterFlags dialect⟩
  | .keyword (.parameter .space) => some (.named .space (space <$> Reader.uint))
  | .keyword (.parameter .visibility) =>
    some (.named .visibility (visibility <$> Reader.visibility))
  | _ => none

/-- The parameter that a list of items makes. -/
def ofItems (type : DescriptorType) (items : List DescriptorItem) :
    Except RequiredParameter RootParameterV1_1 := do
  let register ← RequiredParameter.shaderRegister.require <| items.findSome? fun
    | .register n => some n
    | _ => none
  let flags? := items.findSome? fun
    | .flags fs => some fs
    | _ => none
  let space? := items.findSome? fun
    | .space n => some n
    | _ => none
  let visibility? := items.findSome? fun
    | .visibility v => some v
    | _ => none
  return {
    binding := .descriptor { type, register, space := space?.getD 0, flags := flags?.getD ∅ }
    visibility := visibility?.getD .all }

end DescriptorItem

/-- A descriptor, from the opening word on. -/
def Reader.rootDescriptor (dialect : Dialect) (type : DescriptorType) : Reader RootParameterV1_1 :=
  construct (DescriptorItem.ofToken? dialect type) (DescriptorItem.ofItems type)

/-! ## Ranges -/

/-- The class of the registers of a range. -/
def RangeType.registerClass : RangeType → RegisterClass
  | .cbv => .b
  | .srv => .t
  | .uav => .u
  | .sampler => .s

/-- A range of one descriptor that follows the range before it and has no flags. -/
def DescriptorRange.ofRegister (type : RangeType) (register : UInt32) :
    DescriptorRange (FlagSet RangeFlag) :=
  { type, register, flags := ∅ }

/-- An item of a range. -/
inductive RangeItem where
  | register (index : UInt32)
  | count (count : DescriptorCount)
  | space (space : UInt32)
  | flags (flags : FlagSet RangeFlag)
  | offset (offset : RangeOffset)
deriving DecidableEq

namespace RangeItem

/-- How the item of a range is read that starts with a token. A register of a wrong class is read as
the register of the range, and refused. -/
def ofToken? (dialect : Dialect) (type : RangeType) : Token → Option (Item RangeItem)
  | .register _ => some ⟨some .shaderRegister, register <$> Reader.register type.registerClass⟩
  | .keyword (.parameter .numDescriptors) =>
    some (.named .numDescriptors (count <$> Reader.descriptorCount))
  | .keyword (.parameter .space) => some (.named .space (space <$> Reader.uint))
  | .keyword (.parameter .flags) =>
    some ⟨some (.parameter .flags), flags <$> Reader.parameterFlags dialect⟩
  | .keyword (.parameter .offset) => some (.named .offset (offset <$> Reader.rangeOffset))
  | _ => none

/-- The range that a list of items makes. -/
def ofItems (type : RangeType) (items : List RangeItem) :
    Except RequiredParameter (DescriptorRange (FlagSet RangeFlag)) := do
  let register ← RequiredParameter.shaderRegister.require <| items.findSome? fun
    | .register n => some n
    | _ => none
  let count? := items.findSome? fun
    | .count c => some c
    | _ => none
  let space? := items.findSome? fun
    | .space n => some n
    | _ => none
  let flags? := items.findSome? fun
    | .flags fs => some fs
    | _ => none
  let offset? := items.findSome? fun
    | .offset o => some o
    | _ => none
  let plain := DescriptorRange.ofRegister type register
  return { type, register
           count := count?.getD plain.count
           space := space?.getD plain.space
           flags := flags?.getD plain.flags
           offset := offset?.getD plain.offset }

end RangeItem

/-- A range, from the opening word on. -/
def Reader.descriptorRange (dialect : Dialect) (type : RangeType) :
    Reader (DescriptorRange (FlagSet RangeFlag)) :=
  construct (RangeItem.ofToken? dialect type) (RangeItem.ofItems type)

/-! ## Tables -/

/-- An item of a table. -/
inductive TableItem where
  | range (range : DescriptorRange (FlagSet RangeFlag))
  | visibility (visibility : ShaderVisibility)
deriving DecidableEq

namespace TableItem

/-- A range as an item of a table. -/
def rangeItem (dialect : Dialect) (type : RangeType) : Item TableItem :=
  ⟨none, range <$> Reader.descriptorRange dialect type⟩

/-- How the item of a table is read that starts with a token. -/
def ofToken? (dialect : Dialect) : Token → Option (Item TableItem)
  | .keyword (.opening .cbv) => some (rangeItem dialect .cbv)
  | .keyword (.opening .srv) => some (rangeItem dialect .srv)
  | .keyword (.opening .uav) => some (rangeItem dialect .uav)
  | .keyword (.opening .sampler) => some (rangeItem dialect .sampler)
  | .keyword (.parameter .visibility) =>
    some (.named .visibility (visibility <$> Reader.visibility))
  | _ => none

/-- The parameter that a list of items makes. -/
def ofItems (items : List TableItem) : Except RequiredParameter RootParameterV1_1 :=
  let ranges := items.filterMap fun
    | .range r => some r
    | _ => none
  let visibility? := items.findSome? fun
    | .visibility v => some v
    | _ => none
  .ok { binding := .table ranges, visibility := visibility?.getD .all }

end TableItem

/-- A table, from the opening word on. -/
def Reader.descriptorTable (dialect : Dialect) : Reader RootParameterV1_1 :=
  construct (TableItem.ofToken? dialect) TableItem.ofItems

end RootSignature
