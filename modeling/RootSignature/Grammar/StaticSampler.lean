import RootSignature.Grammar.Items

/-!
# Static samplers

The declaration of a sampler that is fixed in the root signature. Only its register is needed; all
else has a default.
-/

namespace RootSignature

/-- An item of a static sampler. -/
inductive SamplerItem where
  | filter (filter : Filter)
  | addressU (mode : TextureAddressMode)
  | addressV (mode : TextureAddressMode)
  | addressW (mode : TextureAddressMode)
  | mipLodBias (bias : Binary32)
  | maxAnisotropy (limit : UInt32)
  | comparison (comparison : ComparisonFunction)
  | borderColor (color : BorderColor)
  | minLod (level : Binary32)
  | maxLod (level : Binary32)
  | register (index : UInt32)
  | space (space : UInt32)
  | visibility (visibility : ShaderVisibility)
deriving DecidableEq

namespace SamplerItem

/-- How the item of a static sampler is read that is given by the name of a parameter. -/
def ofParameter? : Parameter → Option (Reader SamplerItem)
  | .filter => some (filter <$> Reader.filter)
  | .addressU => some (addressU <$> Reader.addressMode)
  | .addressV => some (addressV <$> Reader.addressMode)
  | .addressW => some (addressW <$> Reader.addressMode)
  | .mipLodBias => some (mipLodBias <$> Reader.float)
  | .maxAnisotropy => some (maxAnisotropy <$> Reader.uint)
  | .comparisonFunc => some (comparison <$> Reader.comparison)
  | .borderColor => some (borderColor <$> Reader.borderColor)
  | .minLod => some (minLod <$> Reader.float)
  | .maxLod => some (maxLod <$> Reader.float)
  | .space => some (space <$> Reader.uint)
  | .visibility => some (visibility <$> Reader.visibility)
  | .num32BitConstants | .flags | .numDescriptors | .offset => none

/-- How the item of a static sampler is read that starts with a token. -/
def ofToken? : Token → Option (Item SamplerItem)
  | .keyword (.parameter p) => (ofParameter? p).map (.named p)
  | .register ⟨.s, _⟩ => some ⟨some .samplerRegister, register <$> Reader.register .s⟩
  | _ => none

/-- The sampler that a list of items makes. -/
def ofItems (items : List SamplerItem) : Except RequiredParameter StaticSampler := do
  let register ← RequiredParameter.samplerRegister.require <| items.findSome? fun
    | .register n => some n
    | _ => none
  let plain : StaticSampler := { register }
  let filter? := items.findSome? fun
    | .filter f => some f
    | _ => none
  let addressU? := items.findSome? fun
    | .addressU m => some m
    | _ => none
  let addressV? := items.findSome? fun
    | .addressV m => some m
    | _ => none
  let addressW? := items.findSome? fun
    | .addressW m => some m
    | _ => none
  let mipLodBias? := items.findSome? fun
    | .mipLodBias x => some x
    | _ => none
  let maxAnisotropy? := items.findSome? fun
    | .maxAnisotropy n => some n
    | _ => none
  let comparison? := items.findSome? fun
    | .comparison c => some c
    | _ => none
  let borderColor? := items.findSome? fun
    | .borderColor b => some b
    | _ => none
  let minLod? := items.findSome? fun
    | .minLod x => some x
    | _ => none
  let maxLod? := items.findSome? fun
    | .maxLod x => some x
    | _ => none
  let space? := items.findSome? fun
    | .space n => some n
    | _ => none
  let visibility? := items.findSome? fun
    | .visibility v => some v
    | _ => none
  return {
    register
    filter := filter?.getD plain.filter
    addressU := addressU?.getD plain.addressU
    addressV := addressV?.getD plain.addressV
    addressW := addressW?.getD plain.addressW
    mipLodBias := mipLodBias?.getD plain.mipLodBias
    maxAnisotropy := maxAnisotropy?.getD plain.maxAnisotropy
    comparison := comparison?.getD plain.comparison
    borderColor := borderColor?.getD plain.borderColor
    minLod := minLod?.getD plain.minLod
    maxLod := maxLod?.getD plain.maxLod
    space := space?.getD plain.space
    visibility := visibility?.getD plain.visibility }

end SamplerItem

/-- A static sampler, from the opening word on. -/
def Reader.staticSampler : Reader StaticSampler :=
  construct SamplerItem.ofToken? SamplerItem.ofItems

end RootSignature
