import RootSignature.Proofs.Grammar.WellFormed
import RootSignature.Proofs.Signature.Conversion
import RootSignature.Proofs.Token.Spelled

/-!
# Every signature can be written

The grammar leaves nothing out: whatever a signature says, some text says it too. A value is
`Writable` by a rule if the rule relates it to tokens that can be written themselves. This is so of
all values of parameters, of sets of known flags, and of floats that some text stands for, and it
goes over to what is put together of them, with every parameter given by its name. Only flags are
left out where the version has none.

`exists_source_of_signature` is the main result, for signatures of either version.
-/

namespace RootSignature

open Grammar

namespace Grammar

/-- The rule relates the value to tokens that can be written. -/
def Writable {α : Type} (rule : Rule α) (a : α) : Prop :=
  ∃ ts, rule ts a ∧ ∀ t ∈ ts, t.IsSpelled

/-! ## Values -/

/-- Every whole number can be written. -/
theorem writable_number (n : UInt32) : Writable Number n :=
  ⟨[.uint n], rfl, by simp [Token.isSpelled_uint]⟩

theorem writable_word {α : Type} (keyword : α → Keyword) (a : α) : Writable (Word keyword) a :=
  ⟨[.keyword (keyword a)], rfl, by simp [Token.isSpelled_keyword]⟩

/-- Every number of descriptors can be written, the unbounded one as a word. -/
theorem writable_count (c : DescriptorCount) : Writable Count c := by
  cases c with
  | bounded n => exact writable_number n
  | unbounded => exact ⟨[.keyword .unbounded], rfl, by simp [Token.isSpelled_keyword]⟩

/-- Every offset of a range can be written, the appended one as a word. -/
theorem writable_offset (o : RangeOffset) : Writable Offset o := by
  cases o with
  | explicit n => exact writable_number n
  | append => exact ⟨[.keyword .offsetAppend], rfl, by simp [Token.isSpelled_keyword]⟩

theorem writable_register (c : RegisterClass) (n : UInt32) : Writable (Grammar.Register c) n :=
  ⟨[.register ⟨c, n⟩], rfl, by simp [Token.isSpelled_register]⟩

/-- A value that can be written can be given by the name of its parameter. -/
theorem Writable.named {α : Type} {value : Rule α} {a : α} (h : Writable value a) (p : Parameter) :
    Writable (Named p value) a := by
  obtain ⟨ts, hts, hspelled⟩ := h
  refine ⟨_, ⟨ts, rfl, hts⟩, ?_⟩
  simpa [Token.isSpelled_keyword, Token.isSpelled_equals] using hspelled

/-! ## Flags -/

section
variable {F : Type} {word : Token → F → Prop}

/-- Flags that can be written can be written with bars between them. -/
theorem writable_flagWords {f : F} {fs : List F} (h : ∀ g ∈ f :: fs, ∃ t, word t g ∧ t.IsSpelled) :
    Writable (FlagWords word) (f :: fs) := by
  induction fs generalizing f with
  | nil =>
      obtain ⟨t, ht, hspelled⟩ := h f (List.mem_singleton.2 rfl)
      exact ⟨[t], .single ht, by simpa using hspelled⟩
  | cons g fs ih =>
      obtain ⟨⟨t, ht, hspelled⟩, hrest⟩ := List.forall_mem_cons.1 h
      obtain ⟨ts, hts, hspelled'⟩ := ih hrest
      exact ⟨t :: .verticalBar :: ts, .cons ht hts,
        by simpa [hspelled, Token.isSpelled_verticalBar] using hspelled'⟩

/-- A known set can be written, if its flags can be. -/
theorem writable_flags [Flag F]
    (hbit : ∀ f : F, ∃ i < 32, (Flag.bit f).toBitVec = BitVec.twoPow 32 i)
    (hword : ∀ f : F, ∃ t, word t f ∧ t.IsSpelled) {s : FlagSet F} (h : s.isKnown = true) :
    Writable (Flags word) s := by
  have hs := FlagSet.ofList_toList hbit h
  cases hlist : s.toList with
  | nil =>
      rw [hlist] at hs
      exact ⟨[.uint 0], hs ▸ .zero, by simp [Token.isSpelled_uint]⟩
  | cons f fs =>
      obtain ⟨ts, hts, hspelled⟩ := writable_flagWords fun g (_ : g ∈ f :: fs) => hword g
      rw [hlist] at hs
      exact ⟨ts, hs ▸ .words hts, hspelled⟩

end

/-! ## Lists -/

/-- An opening word and parentheses can be written around what can be written. -/
theorem isSpelled_of_mem_parens {o : Opening} {body : List Token} (h : ∀ t ∈ body, t.IsSpelled)
    {t : Token} (ht : t ∈ .keyword (.opening o) :: .leftParen :: (body ++ [.rightParen])) :
    t.IsSpelled := by
  simp only [List.mem_cons, List.mem_append, List.not_mem_nil, or_false] at ht
  rcases ht with rfl | rfl | ht | rfl
  · exact Token.isSpelled_keyword _
  · exact Token.isSpelled_leftParen
  · exact h t ht
  · exact Token.isSpelled_rightParen

section
variable {α β : Type} {item : Rule α}

/-- Values that can be written can be written with commas between them. -/
theorem writable_commaList {a : α} {as : List α} (h : ∀ b ∈ a :: as, Writable item b) :
    Writable (CommaList item) (a :: as) := by
  induction as generalizing a with
  | nil =>
      obtain ⟨ts, hts, hspelled⟩ := h a (List.mem_singleton.2 rfl)
      exact ⟨ts, .single hts, hspelled⟩
  | cons b as ih =>
      obtain ⟨⟨ts, hts, hspelled⟩, hrest⟩ := List.forall_mem_cons.1 h
      obtain ⟨ts', hts', hspelled'⟩ := ih hrest
      refine ⟨ts ++ .comma :: ts', .cons hts hts', fun t ht => ?_⟩
      rcases List.mem_append.1 ht with ht | ht
      · exact hspelled t ht
      · rcases List.mem_cons.1 ht with rfl | ht
        · exact Token.isSpelled_comma
        · exact hspelled' t ht

/-- A construct can be written if the items that make it can. -/
theorem writable_construct {opening : Opening} {slot? : α → Option Slot}
    {Makes : List α → β → Prop} {a : α} {as : List α} {b : β}
    (hitems : ∀ x ∈ a :: as, Writable item x) (hslots : ((a :: as).filterMap slot?).Nodup)
    (hmakes : Makes (a :: as) b) : Writable (Construct opening item slot? Makes) b := by
  obtain ⟨body, hbody, hspelled⟩ := writable_commaList hitems
  exact ⟨_, ⟨body, a :: as, rfl, hbody, hslots, hmakes⟩,
    fun _ ht => isSpelled_of_mem_parens hspelled ht⟩

end

end Grammar

variable {dialect : Dialect}

/-! ## Constants -/

/-- All items of root constants. -/
def ConstantsItem.ofConstants (c : RootConstants) (v : ShaderVisibility) : List ConstantsItem :=
  [.valueCount c.valueCount, .register c.register, .space c.space, .visibility v]

/-- All root constants can be written, with any visibility. -/
theorem RootConstants.writable (c : RootConstants) (v : ShaderVisibility) :
    Writable (RootParameter.Written dialect) ⟨.constants c, v⟩ := by
  have hitems : ∀ x ∈ ConstantsItem.ofConstants c v, Writable ConstantsItem.Written x := by
    intro x hx
    simp only [ConstantsItem.ofConstants, List.mem_cons, List.not_mem_nil, or_false] at hx
    rcases hx with rfl | rfl | rfl | rfl
    · exact (writable_number _).named _
    · exact writable_register _ _
    · exact (writable_number _).named _
    · exact (writable_word _ v).named _
  have hmakes : ConstantsItem.Makes (ConstantsItem.ofConstants c v) ⟨.constants c, v⟩ := by
    refine .intro ?_ ?_ (.inl ?_) (.inl ?_) <;> simp [ConstantsItem.ofConstants]
  have hconstants : Writable (Construct .rootConstants ConstantsItem.Written ConstantsItem.slot?
      ConstantsItem.Makes) ⟨.constants c, v⟩ :=
    writable_construct hitems (by simp [ConstantsItem.slot?]) hmakes
  obtain ⟨ts, hts, hspelled⟩ := hconstants
  exact ⟨ts, .constants hts, hspelled⟩

/-! ## Flags in a version -/

section
variable {F α : Type} {version : Version} {item : FlagSet F → α} {fs : FlagSet F}

/-- The item that gives flags, in a version that has them. -/
def flagItems (version : Version) (item : FlagSet F → α) (fs : FlagSet F) : List α :=
  match version with
  | .v1_0 => []
  | .v1_1 => [item fs]

/-- Flags are written as an item in version 1.1 only. -/
@[simp] theorem mem_flagItems {x : α} :
    x ∈ flagItems version item fs ↔ version = .v1_1 ∧ x = item fs := by
  cases version <;> simp [flagItems]

/-- The flags are known, and there are none in a version that has none. -/
def FlagSet.FitsVersion [Flag F] (version : Version) (fs : FlagSet F) : Prop :=
  fs.isKnown = true ∧ (version = .v1_0 → fs = ∅)

/-- Version 1.1 has all known flags. -/
theorem FlagSet.fitsVersion_v1_1 [Flag F] : fs.FitsVersion .v1_1 ↔ fs.isKnown = true := by
  simp [FitsVersion]

/-- Flags that fit the version are given by the item for them, or are the default. -/
theorem FlagSet.FitsVersion.givenOr [Flag F] (h : fs.FitsVersion version) {items : List α}
    (hitems : ∀ fs', item fs' ∈ items ↔ version = .v1_1 ∧ fs' = fs) :
    GivenOr items item ∅ fs := by
  cases version with
  | v1_0 => exact .inr ⟨fun fs' hmem => (nomatch ((hitems fs').1 hmem).1), h.2 rfl⟩
  | v1_1 => exact .inl ((hitems fs).2 ⟨rfl, rfl⟩)

/-- In a version that has flags, flags that fit it can be given. -/
theorem FlagSet.FitsVersion.writable [Flag F] (h : fs.FitsVersion version)
    (hversion : version = .v1_1) {word : Token → F → Prop}
    (hbit : ∀ f : F, ∃ i < 32, (Flag.bit f).toBitVec = BitVec.twoPow 32 i)
    (hword : ∀ f : F, ∃ t, word t f ∧ t.IsSpelled) :
    Writable (fun ts fs => version = .v1_1 ∧ Named .flags (Flags word) ts fs) fs := by
  obtain ⟨ts, hts, hspelled⟩ := (writable_flags hbit hword h.1).named .flags
  exact ⟨ts, ⟨hversion, hts⟩, hspelled⟩

end

/-! ## Descriptors -/

/-- All items of a descriptor, but the flags only in a version that has them. -/
def DescriptorItem.ofDescriptor (version : Version) (d : RootDescriptor (FlagSet DescriptorFlag))
    (v : ShaderVisibility) : List DescriptorItem :=
  .register d.register :: .space d.space :: .visibility v :: flagItems version .flags d.flags

/-- A descriptor can be written if its flags fit the version. -/
theorem RootDescriptor.writable {d : RootDescriptor (FlagSet DescriptorFlag)}
    (h : d.flags.FitsVersion dialect.version) (v : ShaderVisibility) :
    Writable (RootParameter.Written dialect) ⟨.descriptor d, v⟩ := by
  have hitems : ∀ x ∈ DescriptorItem.ofDescriptor dialect.version d v,
      Writable (DescriptorItem.Written dialect d.type) x := by
    intro x hx
    simp only [DescriptorItem.ofDescriptor, List.mem_cons, mem_flagItems] at hx
    rcases hx with rfl | rfl | rfl | ⟨hversion, rfl⟩
    · exact writable_register _ _
    · exact (writable_number _).named _
    · exact (writable_word _ v).named _
    · exact h.writable hversion DescriptorFlag.exists_bit_eq
        fun f => ⟨_, rfl, Token.isSpelled_keyword _⟩
  have hslots : ((DescriptorItem.ofDescriptor dialect.version d v).filterMap
      DescriptorItem.slot?).Nodup := by
    cases dialect.version <;> simp [DescriptorItem.ofDescriptor, DescriptorItem.slot?, flagItems]
  have hflags : GivenOr (DescriptorItem.ofDescriptor dialect.version d v) .flags ∅ d.flags :=
    h.givenOr fun fs' => by simp [DescriptorItem.ofDescriptor]
  have hmakes : DescriptorItem.Makes d.type (DescriptorItem.ofDescriptor dialect.version d v)
      ⟨.descriptor d, v⟩ :=
    .intro (by simp [DescriptorItem.ofDescriptor]) (.inl (by simp [DescriptorItem.ofDescriptor]))
      hflags (.inl (by simp [DescriptorItem.ofDescriptor]))
  have hdescriptor : Writable (Construct d.type.opening (DescriptorItem.Written dialect d.type)
      DescriptorItem.slot? (DescriptorItem.Makes d.type)) ⟨.descriptor d, v⟩ :=
    writable_construct hitems hslots hmakes
  obtain ⟨ts, hts, hspelled⟩ := hdescriptor
  exact ⟨ts, .descriptor d.type hts, hspelled⟩

/-! ## Tables -/

/-- All items of a range, but the flags only in a version that has them. -/
def RangeItem.ofRange (version : Version) (r : DescriptorRange (FlagSet RangeFlag)) :
    List RangeItem :=
  .register r.register :: .count r.count :: .space r.space :: .offset r.offset ::
    flagItems version .flags r.flags

/-- A range can be written if its flags fit the version. -/
theorem DescriptorRange.writable {r : DescriptorRange (FlagSet RangeFlag)}
    (h : r.flags.FitsVersion dialect.version) : Writable (DescriptorRange.Written dialect) r := by
  have hitems : ∀ x ∈ RangeItem.ofRange dialect.version r,
      Writable (RangeItem.Written dialect r.type) x := by
    intro x hx
    simp only [RangeItem.ofRange, List.mem_cons, mem_flagItems] at hx
    rcases hx with rfl | rfl | rfl | rfl | ⟨hversion, rfl⟩
    · exact writable_register _ _
    · exact (writable_count _).named _
    · exact (writable_number _).named _
    · exact (writable_offset _).named _
    · exact h.writable hversion RangeFlag.exists_bit_eq
        fun f => ⟨_, rfl, Token.isSpelled_keyword _⟩
  have hslots : ((RangeItem.ofRange dialect.version r).filterMap RangeItem.slot?).Nodup := by
    cases dialect.version <;> simp [RangeItem.ofRange, RangeItem.slot?, flagItems]
  have hflags : GivenOr (RangeItem.ofRange dialect.version r) .flags ∅ r.flags :=
    h.givenOr fun fs' => by simp [RangeItem.ofRange]
  have hmakes : RangeItem.Makes r.type (RangeItem.ofRange dialect.version r) r :=
    .intro (by simp [RangeItem.ofRange]) (.inl (by simp [RangeItem.ofRange]))
      (.inl (by simp [RangeItem.ofRange])) (.inl (by simp [RangeItem.ofRange])) hflags
  exact writable_construct hitems hslots hmakes

/-- All items of a table. The visibility is given as well, so that there is an item even if there is
no range. -/
def TableItem.ofTable (ranges : List (DescriptorRange (FlagSet RangeFlag)))
    (v : ShaderVisibility) : List TableItem :=
  .visibility v :: ranges.map .range

/-- A table can be written if the flags of its ranges fit the version. -/
theorem RootParameter.writable_table {ranges : List (DescriptorRange (FlagSet RangeFlag))}
    (h : ∀ r ∈ ranges, r.flags.FitsVersion dialect.version) (v : ShaderVisibility) :
    Writable (Written dialect) ⟨.table ranges, v⟩ := by
  have hitems : ∀ x ∈ TableItem.ofTable ranges v, Writable (TableItem.Written dialect) x := by
    intro x hx
    simp only [TableItem.ofTable, List.mem_cons, List.mem_map] at hx
    rcases hx with rfl | ⟨r, hr, rfl⟩
    · exact (writable_word _ v).named _
    · exact DescriptorRange.writable (h r hr)
  have hslots : ((TableItem.ofTable ranges v).filterMap TableItem.slot?).Nodup := by
    simp [TableItem.ofTable, TableItem.slot?, List.filterMap_map, Function.comp_def]
  have hranges : (TableItem.ofTable ranges v).filterMap TableItem.range? = ranges := by
    rw [TableItem.ofTable, List.filterMap_cons_none rfl, List.filterMap_map]
    exact List.filterMap_some
  have hmakes : TableItem.Makes (TableItem.ofTable ranges v) ⟨.table ranges, v⟩ := by
    have hvisibility : GivenOr (TableItem.ofTable ranges v) .visibility .all v :=
      .inl (by simp [TableItem.ofTable])
    have hmade := TableItem.Makes.intro hvisibility
    rwa [hranges] at hmade
  have htable : Writable (Construct .descriptorTable (TableItem.Written dialect) TableItem.slot?
      TableItem.Makes) ⟨.table ranges, v⟩ := writable_construct hitems hslots hmakes
  obtain ⟨ts, hts, hspelled⟩ := htable
  exact ⟨ts, .table hts, hspelled⟩

/-- Every parameter whose flags fit the version can be written. -/
theorem RootParameter.writable {p : RootParameterV1_1}
    (h : p.binding.FlagsSatisfy (·.FitsVersion dialect.version) (·.FitsVersion dialect.version)) :
    Writable (Written dialect) p := by
  obtain ⟨binding, v⟩ := p
  cases binding with
  | constants c => exact c.writable v
  | descriptor d => exact RootDescriptor.writable h v
  | table ranges => exact writable_table h v

/-! ## Static samplers -/

/-- A text of its own is read as the float. -/
def Binary32.IsWritten (x : Binary32) : Prop :=
  ∃ text base, Reader.float.run (TokenStream.ofSource text base).stop
    (TokenStream.ofSource text base).lexemes = (.ok x, [])

/-- A float that a numeral stands for can be written as a value. -/
theorem Binary32.IsWritten.writable {x : Binary32} (h : x.IsWritten) : Writable FloatNumber x := by
  obtain ⟨text, base, hrun⟩ := h
  obtain ⟨front, hfront, hx⟩ := (Reader.accepts_float _ _ _ _ trivial).1 hrun
  rw [List.append_nil] at hfront
  exact ⟨_, hx, fun t ht => Token.isSpelled_of_mem (hfront ▸ ht)⟩

/-- All floats of the sampler are written somewhere. -/
structure StaticSampler.FloatsWritten (s : StaticSampler) : Prop where
  mipLodBias : s.mipLodBias.IsWritten
  minLod : s.minLod.IsWritten
  maxLod : s.maxLod.IsWritten

/-- All items of a sampler. -/
def SamplerItem.ofSampler (s : StaticSampler) : List SamplerItem :=
  [.register s.register, .filter s.filter, .addressU s.addressU, .addressV s.addressV,
    .addressW s.addressW, .mipLodBias s.mipLodBias, .maxAnisotropy s.maxAnisotropy,
    .comparison s.comparison, .borderColor s.borderColor, .minLod s.minLod, .maxLod s.maxLod,
    .space s.space, .visibility s.visibility]

/-- A static sampler can be written if its floats can. -/
theorem StaticSampler.writable {s : StaticSampler} (h : s.FloatsWritten) :
    Writable StaticSampler.Written s := by
  have hitems : ∀ x ∈ SamplerItem.ofSampler s, Writable SamplerItem.Written x := by
    intro x hx
    simp only [SamplerItem.ofSampler, List.mem_cons, List.not_mem_nil, or_false] at hx
    rcases hx with rfl | rfl | rfl | rfl | rfl | rfl | rfl | rfl | rfl | rfl | rfl | rfl | rfl
    · exact writable_register _ _
    · exact (writable_word _ s.filter).named _
    · exact (writable_word _ s.addressU).named _
    · exact (writable_word _ s.addressV).named _
    · exact (writable_word _ s.addressW).named _
    · exact h.mipLodBias.writable.named _
    · exact (writable_number _).named _
    · exact (writable_word _ s.comparison).named _
    · exact (writable_word _ s.borderColor).named _
    · exact h.minLod.writable.named _
    · exact h.maxLod.writable.named _
    · exact (writable_number _).named _
    · exact (writable_word _ s.visibility).named _
  have hmakes : SamplerItem.Makes (SamplerItem.ofSampler s) s := by
    constructor
    case register => simp [SamplerItem.ofSampler]
    all_goals exact .inl (by simp [SamplerItem.ofSampler])
  exact writable_construct hitems (by simp [SamplerItem.slot?]) hmakes

/-! ## Signatures -/

/-- All declarations of a signature. -/
def Declaration.ofSignature (s : SignatureV1_1) : List Declaration :=
  .rootFlags s.flags :: (s.parameters.map .parameter ++ s.staticSamplers.map .staticSampler)

/-- The flags of the whole are known, those of descriptors and ranges satisfy a condition each, and
the floats are written somewhere. -/
structure Signature.Expressible {D R : Type} (descriptorFlags : D → Prop) (rangeFlags : R → Prop)
    (s : Signature D R) : Prop where
  flags : s.flags.isKnown = true
  parameters : ∀ p ∈ s.parameters, p.binding.FlagsSatisfy descriptorFlags rangeFlags
  staticSamplers : ∀ x ∈ s.staticSamplers, x.FloatsWritten

/-- Known flags can be declared outside global mode. -/
theorem Declaration.writable_rootFlags (hfree : dialect.isGlobal = false) {fs : FlagSet RootFlag}
    (h : fs.isKnown = true) : Writable (Declaration.Written dialect) (.rootFlags fs) := by
  have hword (f : RootFlag) : ∃ t, RootFlagWord dialect t f ∧ t.IsSpelled :=
    ⟨_, ⟨rfl, fun hlocal => by simp [hfree] at hlocal⟩, Token.isSpelled_keyword _⟩
  obtain ⟨body, hbody, hspelled⟩ := writable_flags RootFlag.exists_bit_eq hword h
  exact ⟨_, ⟨body, hbody, rfl⟩, fun _ ht => isSpelled_of_mem_parens hspelled ht⟩

/-- The declarations of a signature make this signature. -/
theorem Signature.madeOf_ofSignature (s : SignatureV1_1) :
    Signature.MadeOf (Declaration.ofSignature s) s where
  flags := .inl (by simp [Declaration.ofSignature])
  parameters := by
    rw [Declaration.ofSignature, List.filterMap_cons_none rfl, List.filterMap_append,
      List.filterMap_map, List.filterMap_map]
    simp
  staticSamplers := by
    rw [Declaration.ofSignature, List.filterMap_cons_none rfl, List.filterMap_append,
      List.filterMap_map, List.filterMap_map]
    simp

/-- A signature that can be expressed in a version can be written in it. -/
theorem Signature.Expressible.writable {s : SignatureV1_1} (hfree : dialect.isGlobal = false)
    (h : s.Expressible (·.FitsVersion dialect.version) (·.FitsVersion dialect.version)) :
    Writable (Signature.Written dialect) s := by
  have hitems : ∀ d ∈ Declaration.ofSignature s, Writable (Declaration.Written dialect) d := by
    intro d hd
    simp only [Declaration.ofSignature, List.mem_cons, List.mem_append, List.mem_map] at hd
    rcases hd with rfl | ⟨p, hp, rfl⟩ | ⟨x, hx, rfl⟩
    · exact Declaration.writable_rootFlags hfree h.flags
    · exact RootParameter.writable (h.parameters p hp)
    · exact StaticSampler.writable (h.staticSamplers x hx)
  have honce : ((Declaration.ofSignature s).filter Declaration.isRootFlags).length ≤ 1 := by
    rw [Declaration.ofSignature, List.filter_cons_of_pos rfl, List.filter_append, List.filter_map,
      List.filter_map]
    simp [Function.comp_def, Declaration.isRootFlags]
  obtain ⟨ts, hts, hspelled⟩ := writable_commaList hitems
  exact ⟨ts, ⟨_, .list hts, honce, Signature.madeOf_ofSignature s⟩, hspelled⟩

/-- A signature that can be expressed in a version is read from some source in it, wherever that is
loaded. -/
theorem Signature.Expressible.exists_source {s : SignatureV1_1} {version : Version}
    (h : s.Expressible (·.FitsVersion version) (·.FitsVersion version)) :
    ∃ source, ∀ base, parse source base version .unspecified = .ok (s.asVersion version) := by
  have hwritable : Writable (Signature.Written (BindingMode.unspecified.dialect version)) s :=
    Signature.Expressible.writable rfl h
  obtain ⟨ts, hts, hspelled⟩ := hwritable
  obtain ⟨source, hsource⟩ := exists_source_of_isSpelled hspelled
  refine ⟨source, fun base => parse_eq_ok_iff.2 ⟨s, ?_, rfl⟩⟩
  rw [readSource_signature_eq_ok_iff, hsource base]
  exact hts

/-- Without flags, descriptors and ranges fit a version that has none. -/
theorem Binding.flagsSatisfy_mapFlags_empty (b : Binding Unit Unit) :
    (b.mapFlags (fun _ => (∅ : FlagSet DescriptorFlag))
      fun _ => (∅ : FlagSet RangeFlag)).FlagsSatisfy
        (·.FitsVersion .v1_0) (·.FitsVersion .v1_0) := by
  cases b with
  | constants c => trivial
  | descriptor d => exact ⟨FlagSet.isKnown_empty, fun _ => rfl⟩
  | table ranges =>
      intro r hr
      obtain ⟨r', -, rfl⟩ := List.mem_map.1 hr
      exact ⟨FlagSet.isKnown_empty, fun _ => rfl⟩

/-- Every signature of version 1.1 whose flags are known, and every one of version 1.0 whose flags
of the whole are, is read from some source, if its floats are written somewhere: exactly this
signature is the answer in its version, if nothing is said about how it will be bound. -/
theorem exists_source_of_signature :
    (∀ s : SignatureV1_1, s.Expressible (·.isKnown = true) (·.isKnown = true) →
      ∃ source, ∀ base, parseFor? ∅ source base .v1_1 = some (.ok (.v1_1 s))) ∧
    ∀ s : SignatureV1_0, s.Expressible (fun _ => True) (fun _ => True) →
      ∃ source, ∀ base, parseFor? ∅ source base .v1_0 = some (.ok (.v1_0 s)) := by
  have hmode : (∅ : FlagSet CompilationFlag).bindingMode? = some .unspecified := by decide
  refine ⟨fun s hs => ?_, fun s hs => ?_⟩
  · have hfits : s.Expressible (·.FitsVersion .v1_1) (·.FitsVersion .v1_1) := by
      simpa only [FlagSet.fitsVersion_v1_1] using hs
    obtain ⟨source, hsource⟩ := hfits.exists_source
    exact ⟨source, fun base => by rw [parseFor?, hmode, Option.map_some, hsource base]; rfl⟩
  · -- Version 1.0 describes a signature that has been read as one of version 1.1 without flags.
    have hfits : (s.mapFlags (fun _ => (∅ : FlagSet DescriptorFlag))
        fun _ => (∅ : FlagSet RangeFlag)).Expressible
          (·.FitsVersion .v1_0) (·.FitsVersion .v1_0) := by
      refine ⟨hs.flags, fun p hp => ?_, hs.staticSamplers⟩
      obtain ⟨p', -, rfl⟩ := List.mem_map.1 hp
      exact p'.binding.flagsSatisfy_mapFlags_empty
    obtain ⟨source, hsource⟩ := hfits.exists_source
    refine ⟨source, fun base => ?_⟩
    rw [parseFor?, hmode, Option.map_some, hsource base, Signature.asVersion,
      Signature.eraseFlags_mapFlags, Signature.eraseFlags_v1_0]

/-- The largest count and the last place that can be given, beside a table without ranges and a
sampler with the default floats, and in version 1.0 no bound and no place. -/
theorem exists_source_of_signature_extremes :
    (∃ source, ∀ base, parseFor? ∅ source base .v1_1 = some (.ok (.v1_1 {
      flags := {.localRootSignature}
      parameters := [⟨.table [], .all⟩,
        ⟨.table [⟨.sampler, 0, .bounded 4294967295, 0, .explicit 4294967295,
          {.descriptorsVolatile}⟩], .mesh⟩]
      staticSamplers := [{ register := 4294967295 }] }))) ∧
    ∃ source, ∀ base, parseFor? ∅ source base .v1_0 = some (.ok (.v1_0 {
      parameters := [⟨.table [⟨.sampler, 0, .unbounded, 0, .append, ()⟩], .mesh⟩] })) := by
  have hzero : Binary32.zero.IsWritten := ⟨"0", .first, by decide +kernel⟩
  have hlargest : Binary32.largest.IsWritten := ⟨"3.402823466e+38f", .first, by decide +kernel⟩
  refine ⟨exists_source_of_signature.1 _ ⟨by decide, fun p hp => ?_, fun x hx => ?_⟩,
    exists_source_of_signature.2 _ ⟨by decide, fun p hp => ?_, fun x hx => nomatch hx⟩⟩
  · simp only [List.mem_cons, List.not_mem_nil, or_false] at hp
    rcases hp with rfl | rfl
    · exact fun r hr => nomatch hr
    · intro r hr
      obtain rfl := List.mem_singleton.1 hr
      decide
  · obtain rfl := List.mem_singleton.1 hx
    exact ⟨hzero, hzero, hlargest⟩
  · obtain rfl := List.mem_singleton.1 hp
    exact fun _ _ => trivial

end RootSignature
