import RootSignature.Proofs.Reader.Run

/-!
# Properties of all readers

Many facts hold of every declaration for one reason: they hold of single values, and whatever is put
together of readers keeps them. `Compositional` says so of a property, once for readers of values
and once for readers from a token on. That all items of constructs have such a property, and so all
declarations (`Compositional.declaration`), is then no more than a walk through the tables that say
how a token is read.
-/

namespace RootSignature

/-! ## What items start with -/

/-- The token is a keyword or a register. -/
def Token.IsName (t : Token) : Prop :=
  (∃ k, t = .keyword k) ∨ ∃ r, t = .register r

/-- If items start with names, none starts at the end. -/
theorem eof_of_isName {α : Type} {item? : Token → Option (Item α)}
    (h : ∀ t item, item? t = some item → t.IsName) : item? .eof = none := by
  cases hitem : item? .eof with
  | none => rfl
  | some item => rcases h .eof item hitem with ⟨k, hk⟩ | ⟨r, hr⟩ <;> contradiction

section
variable {dialect : Dialect} (t : Token)

/-- Items of root constants start with names. -/
theorem ConstantsItem.isName (item : Item ConstantsItem) (h : ofToken? t = some item) :
    t.IsName := by
  cases t with
  | keyword k => exact .inl ⟨k, rfl⟩
  | register r => exact .inr ⟨r, rfl⟩
  | _ => cases h

theorem DescriptorItem.isName (type : DescriptorType) (item : Item DescriptorItem)
    (h : ofToken? dialect type t = some item) : t.IsName := by
  cases t with
  | keyword k => exact .inl ⟨k, rfl⟩
  | register r => exact .inr ⟨r, rfl⟩
  | _ => cases h

theorem RangeItem.isName (type : RangeType) (item : Item RangeItem)
    (h : ofToken? dialect type t = some item) : t.IsName := by
  cases t with
  | keyword k => exact .inl ⟨k, rfl⟩
  | register r => exact .inr ⟨r, rfl⟩
  | _ => cases h

theorem TableItem.isName (item : Item TableItem) (h : ofToken? dialect t = some item) :
    t.IsName := by
  cases t with
  | keyword k => exact .inl ⟨k, rfl⟩
  | _ => cases h

theorem SamplerItem.isName (item : Item SamplerItem) (h : ofToken? t = some item) : t.IsName := by
  cases t with
  | keyword k => exact .inl ⟨k, rfl⟩
  | register r => exact .inr ⟨r, rfl⟩
  | _ => cases h

/-- Declarations start with keywords. -/
theorem Declaration.isName (reader : Reader Declaration) (h : ofToken? dialect t = some reader) :
    t.IsName := by
  cases t with
  | keyword k => exact .inl ⟨k, rfl⟩
  | _ => cases h

end

namespace Reader

variable {dialect : Dialect}

/-! ## Properties -/

/-- What holds of the readers of single values, of values and from a token on, and goes over to what
is put together of them. -/
structure Compositional (dialect : Dialect) (OfValue : (α : Type) → Reader α → Prop)
    (OfToken : (α : Type) → Token → Reader α → Prop) : Prop where
  uint : OfValue _ uint
  float : OfValue _ float
  choice : ∀ {α : Type} (kind : ValueKind) (value? : Keyword → Option α),
    OfValue α (choice kind value?)
  orKeyword : ∀ {α : Type} {r : Reader α} (k : Keyword) (instead : α),
    OfValue α r → OfValue α (orKeyword k instead r)
  mapValue : ∀ {α β : Type} {r : Reader α} (f : α → β), OfValue α r → OfValue β (f <$> r)
  register : ∀ (c : RegisterClass) (r : RootSignature.Register),
    OfToken _ (.register r) (register c)
  assigned : ∀ {α : Type} {r : Reader α} (t : Token), OfValue α r → OfToken α t (assigned r)
  parameterFlags : ∀ {F : Type} [WrittenFlag F], WrittenFlag.family F ≠ .rootSignature →
    OfToken (FlagSet F) (.keyword (.parameter .flags)) (parameterFlags dialect)
  rootFlags : ∀ t : Token, OfToken _ t (rootFlags dialect)
  construct : ∀ {α β : Type} {item? : Token → Option (Item α)}
    (ofItems : List α → Except RequiredParameter β) (t : Token),
    (∀ t item, item? t = some item → t.IsName) →
    (∀ t item, item? t = some item → OfToken α t item.read) → OfToken β t (construct item? ofItems)
  map : ∀ {α β : Type} {t : Token} {r : Reader α} (f : α → β), OfToken α t r →
    OfToken β t (f <$> r)

namespace Compositional

variable {OfValue : (α : Type) → Reader α → Prop} {OfToken : (α : Type) → Token → Reader α → Prop}
  (h : Compositional dialect OfValue OfToken)
include h

/-- Items of root constants are composed of values. -/
theorem constantsItem (t : Token) (item : Item ConstantsItem)
    (hitem : ConstantsItem.ofToken? t = some item) : OfToken _ t item.read := by
  cases t with
  | keyword k =>
      cases k with
      | parameter p =>
          cases p with
          | num32BitConstants | space =>
              cases hitem
              exact h.assigned _ (h.mapValue _ h.uint)
          | visibility =>
              cases hitem
              exact h.assigned _ (h.mapValue _ (h.choice _ _))
          | _ => cases hitem
      | _ => cases hitem
  | register r =>
      obtain ⟨c, n⟩ := r
      cases c with
      | b =>
          cases hitem
          exact h.map _ (h.register _ _)
      | _ => cases hitem
  | _ => cases hitem

theorem descriptorItem (type : DescriptorType) (t : Token) (item : Item DescriptorItem)
    (hitem : DescriptorItem.ofToken? dialect type t = some item) : OfToken _ t item.read := by
  cases t with
  | keyword k =>
      cases k with
      | parameter p =>
          cases p with
          | flags =>
              cases hitem
              exact h.map _ (h.parameterFlags (by decide))
          | space =>
              cases hitem
              exact h.assigned _ (h.mapValue _ h.uint)
          | visibility =>
              cases hitem
              exact h.assigned _ (h.mapValue _ (h.choice _ _))
          | _ => cases hitem
      | _ => cases hitem
  | register r =>
      obtain ⟨c, n⟩ := r
      cases c with
      | s => cases hitem
      | _ =>
          cases hitem
          exact h.map _ (h.register _ _)
  | _ => cases hitem

theorem rangeItem (type : RangeType) (t : Token) (item : Item RangeItem)
    (hitem : RangeItem.ofToken? dialect type t = some item) : OfToken _ t item.read := by
  cases t with
  | keyword k =>
      cases k with
      | parameter p =>
          cases p with
          | flags =>
              cases hitem
              exact h.map _ (h.parameterFlags (by decide))
          | space =>
              cases hitem
              exact h.assigned _ (h.mapValue _ h.uint)
          | numDescriptors | offset =>
              cases hitem
              exact h.assigned _ (h.mapValue _ (h.orKeyword _ _ (h.mapValue _ h.uint)))
          | _ => cases hitem
      | _ => cases hitem
  | register r =>
      cases hitem
      exact h.map _ (h.register _ _)
  | _ => cases hitem

theorem tableItem (t : Token) (item : Item TableItem)
    (hitem : TableItem.ofToken? dialect t = some item) : OfToken _ t item.read := by
  have hrange (type : RangeType) (t : Token) :
      OfToken _ t (TableItem.rangeItem dialect type).read :=
    h.map _ (h.construct (RangeItem.ofItems type) t (RangeItem.isName · type) (h.rangeItem type))
  cases t with
  | keyword k =>
      cases k with
      | opening o =>
          cases o with
          | cbv | srv | uav | sampler =>
              cases hitem
              exact hrange _ _
          | _ => cases hitem
      | parameter p =>
          cases p with
          | visibility =>
              cases hitem
              exact h.assigned _ (h.mapValue _ (h.choice _ _))
          | _ => cases hitem
      | _ => cases hitem
  | _ => cases hitem

theorem samplerItem (t : Token) (item : Item SamplerItem)
    (hitem : SamplerItem.ofToken? t = some item) : OfToken _ t item.read := by
  cases t with
  | keyword k =>
      cases k with
      | parameter p =>
          cases p with
          | filter | addressU | addressV | addressW | comparisonFunc | borderColor | visibility =>
              cases hitem
              exact h.assigned _ (h.mapValue _ (h.choice _ _))
          | mipLodBias | minLod | maxLod =>
              cases hitem
              exact h.assigned _ (h.mapValue _ h.float)
          | maxAnisotropy | space =>
              cases hitem
              exact h.assigned _ (h.mapValue _ h.uint)
          | _ => cases hitem
      | _ => cases hitem
  | register r =>
      obtain ⟨c, n⟩ := r
      cases c with
      | s =>
          cases hitem
          exact h.map _ (h.register _ _)
      | _ => cases hitem
  | _ => cases hitem

/-- All declarations have the property from the word on that opens them. -/
theorem declaration {t : Token} {reader : Reader Declaration}
    (hreader : Declaration.ofToken? dialect t = some reader) : OfToken _ t reader := by
  have hdescriptor (type : DescriptorType) (t : Token) :
      OfToken _ t (Declaration.parameter <$> rootDescriptor dialect type) :=
    h.map _ (h.construct (DescriptorItem.ofItems type) t (DescriptorItem.isName · type)
      (h.descriptorItem type))
  cases t with
  | keyword k =>
      cases k with
      | opening o =>
          cases o with
          | rootFlags =>
              cases hreader
              exact h.map _ (h.rootFlags _)
          | rootConstants =>
              cases hreader
              exact h.map _ (h.construct _ _ ConstantsItem.isName h.constantsItem)
          | cbv | srv | uav =>
              cases hreader
              exact hdescriptor _ _
          | descriptorTable =>
              cases hreader
              exact h.map _ (h.construct _ _ TableItem.isName h.tableItem)
          | staticSampler =>
              cases hreader
              exact h.map _ (h.construct _ _ SamplerItem.isName h.samplerItem)
          | sampler => cases hreader
      | _ => cases hreader
  | _ => cases hreader

end Compositional

end Reader

end RootSignature
