import RootSignature.Proofs.Dialect.Unflagged
import RootSignature.Proofs.Grammar.Rearranged
import RootSignature.Proofs.Token.Spelled

/-!
# Where order does not count

What a construct makes of its items depends on the members of the list only, except that a table
keeps the order of its ranges. So every rearranged declaration stands for the same declaration
(`Declaration.written_rearranged`), every rearranged list of declarations for the same signature
(`Signature.written_rearranged`), and a source whose tokens are rearranged is accepted as the same
description (`parse_rearranged`). There is such a source, since all of its tokens can be written
(`Rearranged.isSpelled`).
-/

namespace RootSignature

open Grammar

/-! ## Constructs -/

section
variable {dialect : Dialect} {x x' : List Token}

/-- An item of root constants has no flags to rearrange. -/
theorem ConstantsItem.written_rearranged {item : ConstantsItem} (h : FlagsItemRearranged x x')
    (hx : Written x item) : Written x' item := by
  -- Constants have no flags.
  obtain ⟨hflags⟩ := h
  cases item <;> simp [Written] at hx

/-- What root constants are made of has no order. -/
theorem ConstantsItem.Makes.of_perm {as as' : List ConstantsItem} {p : RootParameterV1_1}
    (hperm : as'.Perm as) (h : Makes as p) : Makes as' p := by
  obtain ⟨hcount, hregister, hspace, hvisibility⟩ := h
  exact .intro (hperm.mem_iff.2 hcount) (hperm.mem_iff.2 hregister) (hspace.of_perm hperm)
    (hvisibility.of_perm hperm)

/-- A token is the word of one flag of a descriptor at most. -/
theorem DescriptorFlagWord.rightUnique : Relator.RightUnique DescriptorFlagWord := by
  intro t f f' hf hf'
  have hsame := (RangeFlag.toDescriptorFlag?_eq_some_iff.2 rfl :
    f.toRangeFlag.toDescriptorFlag? = some f)
  have hkeyword : f.toRangeFlag = f'.toRangeFlag := by
    simpa [DescriptorFlagWord] using hf.symm.trans hf'
  rw [hkeyword, RangeFlag.toDescriptorFlag?_eq_some_iff.2 rfl] at hsame
  exact (Option.some.inj hsame).symm

/-- An item of a descriptor is the same with its flags rearranged. -/
theorem DescriptorItem.written_rearranged {type : DescriptorType} {item : DescriptorItem}
    (h : FlagsItemRearranged x x') (hx : Written dialect type x item) :
    Written dialect type x' item := by
  obtain ⟨hflags⟩ := h
  cases item with
  | flags fs =>
      obtain ⟨hversion, vs, hvs, hfs⟩ := hx
      obtain rfl := (List.cons_eq_cons.1 (List.cons_eq_cons.1 hvs).2).2
      exact ⟨hversion, _, rfl, hflags.flags DescriptorFlagWord.rightUnique hfs⟩
  | _ => simp [Written] at hx

/-- What a descriptor is made of has no order. -/
theorem DescriptorItem.Makes.of_perm {type : DescriptorType} {as as' : List DescriptorItem}
    {p : RootParameterV1_1} (hperm : as'.Perm as) (h : Makes type as p) : Makes type as' p := by
  obtain ⟨hregister, hspace, hflags, hvisibility⟩ := h
  exact .intro (hperm.mem_iff.2 hregister) (hspace.of_perm hperm) (hflags.of_perm hperm)
    (hvisibility.of_perm hperm)

/-- An item of a range is the same with its flags rearranged. -/
theorem RangeItem.written_rearranged {type : RangeType} {item : RangeItem}
    (h : FlagsItemRearranged x x') (hx : Written dialect type x item) :
    Written dialect type x' item := by
  obtain ⟨hflags⟩ := h
  cases item with
  | flags fs =>
      obtain ⟨hversion, vs, hvs, hfs⟩ := hx
      obtain rfl := (List.cons_eq_cons.1 (List.cons_eq_cons.1 hvs).2).2
      refine ⟨hversion, _, rfl, hflags.flags (fun t f f' hf hf' => ?_) hfs⟩
      simpa [RangeFlagWord] using hf.symm.trans hf'
  | _ => simp [Written] at hx

/-- What a range is made of has no order. -/
theorem RangeItem.Makes.of_perm {type : RangeType} {as as' : List RangeItem}
    {r : DescriptorRange (FlagSet RangeFlag)} (hperm : as'.Perm as) (h : Makes type as r) :
    Makes type as' r := by
  obtain ⟨hregister, hcount, hspace, hoffset, hflags⟩ := h
  exact .intro (hperm.mem_iff.2 hregister) (hcount.of_perm hperm) (hspace.of_perm hperm)
    (hoffset.of_perm hperm) (hflags.of_perm hperm)

/-- An item of a static sampler has no flags to rearrange. -/
theorem SamplerItem.written_rearranged {item : SamplerItem} (h : FlagsItemRearranged x x')
    (hx : Written x item) : Written x' item := by
  -- Samplers have no flags.
  obtain ⟨hflags⟩ := h
  cases item <;> simp [Written] at hx

/-- What a static sampler is made of has no order. -/
theorem SamplerItem.Makes.of_perm {as as' : List SamplerItem} {s : StaticSampler}
    (hperm : as'.Perm as) (h : Makes as s) : Makes as' s where
  register := hperm.mem_iff.2 h.register
  filter := h.filter.of_perm hperm
  addressU := h.addressU.of_perm hperm
  addressV := h.addressV.of_perm hperm
  addressW := h.addressW.of_perm hperm
  mipLodBias := h.mipLodBias.of_perm hperm
  maxAnisotropy := h.maxAnisotropy.of_perm hperm
  comparison := h.comparison.of_perm hperm
  borderColor := h.borderColor.of_perm hperm
  minLod := h.minLod.of_perm hperm
  maxLod := h.maxLod.of_perm hperm
  space := h.space.of_perm hperm
  visibility := h.visibility.of_perm hperm

/-! ## Tables -/

/-- Ranges of different types are opened by different words. -/
theorem RangeType.opening_injective : Function.Injective RangeType.opening := by
  intro type type' h
  cases type <;> cases type' <;> first | rfl | cases h

/-- A rearranged range is the same range. -/
theorem DescriptorRange.written_rearranged {r : DescriptorRange (FlagSet RangeFlag)}
    (h : RangeRearranged dialect x x') (hx : r.Written dialect x) : r.Written dialect x' := by
  obtain ⟨type, h⟩ := h
  unfold DescriptorRange.Written at hx ⊢
  obtain rfl : type = r.type := by
    obtain ⟨-, -⟩ := h
    exact RangeType.opening_injective (opening_of_construct hx)
  refine h.construct RangeItem.itemsAccept.cuts (fun _ _ _ => RangeItem.written_rearranged) ?_ hx
  exact fun hperm _ => RangeItem.Makes.of_perm hperm

/-- An item of a table is the same with its range rearranged. -/
theorem TableItem.written_rearranged {item : TableItem} (h : RangeRearranged dialect x x')
    (hx : Written dialect x item) : Written dialect x' item := by
  cases item with
  | range r => exact DescriptorRange.written_rearranged h hx
  | visibility v =>
      obtain ⟨type, ⟨-, -⟩⟩ := h
      simp [Written] at hx

/-- The first word of an item of a table tells whether it is a range. -/
theorem TableItem.opensRange_iff {item : TableItem} (hx : Written dialect x item) :
    opensRange x = true ↔ item.range?.isSome = true := by
  cases item with
  | range r =>
      obtain ⟨body, as, rfl, -⟩ := hx
      cases r.type <;> simp [opensRange, opensWith, RangeType.opening, range?]
  | visibility v =>
      obtain ⟨vs, rfl, -⟩ := hx
      simp [opensRange, opensWith, range?]

/-- Items of a kind that keeps its order are picked in the same order. -/
theorem Grammar.SameKinds.filterMap_eq {α β : Type} {item : Rule α}
    {kinds : List (List Token → Bool)} {as as' : List α} (h : SameKinds item kinds as as')
    {kind : List Token → Bool} (hkind : kind ∈ kinds) {f : α → Option β}
    (hf : ∀ x a, item x a → (kind x = true ↔ (f a).isSome = true)) :
    as'.filterMap f = as.filterMap f := by
  have hfilter (as : List α) : as.filterMap f = (as.filter fun a => (f a).isSome).filterMap f := by
    rw [List.filterMap_filter]
    refine List.filterMap_congr fun a _ => ?_
    cases f a <;> rfl
  rw [hfilter, h kind hkind _ hf, ← hfilter]

/-- The items of a table have no order, except for the ranges among them. -/
theorem TableItem.Makes.of_perm {as as' : List TableItem} {p : RootParameterV1_1}
    (hperm : as'.Perm as) (hkinds : SameKinds (TableItem.Written dialect) [opensRange] as as')
    (h : Makes as p) : Makes as' p := by
  have hranges : as'.filterMap range? = as.filterMap range? :=
    hkinds.filterMap_eq (List.mem_singleton_self _) fun x a => opensRange_iff
  obtain ⟨hvisibility⟩ := h
  rw [← hranges]
  exact .intro (hvisibility.of_perm hperm)

/-! ## Declarations -/

/-- All words but two open parameters. -/
theorem Declaration.exists_parameter_of_written {o : Opening} (hflags : o ≠ .rootFlags)
    (hsampler : o ≠ .staticSampler) {ts : List Token} {d : Declaration}
    (h : Written dialect (.keyword (.opening o) :: ts) d) : ∃ p, d = .parameter p := by
  cases d with
  | rootFlags fs =>
      obtain ⟨body, -, hts⟩ := h
      exact absurd (by simpa using (List.cons_eq_cons.1 hts).1) hflags
  | parameter p => exact ⟨p, rfl⟩
  | staticSampler s => exact absurd (opening_of_construct h) hsampler

/-- A token is the word of one flag of a signature at most. -/
theorem RootFlagWord.rightUnique : Relator.RightUnique (RootFlagWord dialect) := by
  intro t f f' hf hf'
  simpa using hf.1.symm.trans hf'.1

/-- A construct that is rearranged keeps its opening word. -/
theorem Grammar.ConstructRearranged.exists_cons {α : Type} {o : Opening} {item : Rule α}
    {kinds : List (List Token → Bool)} {Within : List Token → List Token → Prop}
    (h : ConstructRearranged o item kinds Within x x') :
    ∃ ts ts', x = .keyword (.opening o) :: ts ∧ x' = .keyword (.opening o) :: ts' := by
  obtain ⟨-, -⟩ := h
  exact ⟨_, _, rfl, rfl⟩

/-- A declaration that is rearranged within is the same declaration. -/
theorem Declaration.written_rearranged {d : Declaration} (h : DeclarationRearranged dialect x x')
    (hx : Written dialect x d) : Written dialect x' d := by
  cases h with
  | rootFlags hflags =>
      cases d with
      | rootFlags fs =>
          obtain ⟨body, hfs, hts⟩ := hx
          obtain rfl := List.append_cancel_right (List.cons_eq_cons.1 (List.cons_eq_cons.1 hts).2).2
          exact ⟨_, hflags.flags RootFlagWord.rightUnique hfs, rfl⟩
      | parameter p => exact absurd hx (RootParameter.not_written (.inl rfl))
      | staticSampler s => cases opening_of_construct hx
  | constants h =>
      obtain ⟨ts, ts', rfl, rfl⟩ := h.exists_cons
      obtain ⟨p, rfl⟩ := exists_parameter_of_written (by decide) (by decide) hx
      have hp := RootParameter.written_constants_iff.1 hx
      refine RootParameter.written_constants_iff.2 (h.construct ConstantsItem.itemsAccept.cuts
        (fun _ _ _ => ConstantsItem.written_rearranged) ?_ hp)
      exact fun hperm _ => ConstantsItem.Makes.of_perm hperm
  | descriptor type h =>
      obtain ⟨ts, ts', rfl, rfl⟩ := h.exists_cons
      obtain ⟨p, rfl⟩ := exists_parameter_of_written (by cases type <;> decide)
        (by cases type <;> decide) hx
      have hp := RootParameter.written_descriptor_iff.1 hx
      refine RootParameter.written_descriptor_iff.2 (h.construct DescriptorItem.itemsAccept.cuts
        (fun _ _ _ => DescriptorItem.written_rearranged) ?_ hp)
      exact fun hperm _ => DescriptorItem.Makes.of_perm hperm
  | table h =>
      obtain ⟨ts, ts', rfl, rfl⟩ := h.exists_cons
      obtain ⟨p, rfl⟩ := exists_parameter_of_written (by decide) (by decide) hx
      have hp := RootParameter.written_table_iff.1 hx
      refine RootParameter.written_table_iff.2 (h.construct TableItem.itemsAccept.cuts
        (fun _ _ _ => TableItem.written_rearranged) ?_ hp)
      exact fun hperm => TableItem.Makes.of_perm hperm
  | staticSampler h =>
      cases d with
      | rootFlags fs =>
          obtain ⟨ts, ts', rfl, rfl⟩ := h.exists_cons
          obtain ⟨body, -, hts⟩ := hx
          cases (List.cons_eq_cons.1 hts).1
      | parameter p =>
          obtain ⟨ts, ts', rfl, rfl⟩ := h.exists_cons
          exact absurd hx (RootParameter.not_written (.inr rfl))
      | staticSampler s =>
          refine h.construct SamplerItem.itemsAccept.cuts
            (fun _ _ _ => SamplerItem.written_rearranged) ?_ hx
          exact fun hperm _ => SamplerItem.Makes.of_perm hperm

/-! ## Signatures -/

namespace Declaration

/-- The parameter that is declared. -/
def parameter? : Declaration → Option RootParameterV1_1
  | parameter p => some p
  | _ => none

/-- The static sampler that is declared. -/
def staticSampler? : Declaration → Option StaticSampler
  | staticSampler s => some s
  | _ => none

/-- The first word of a declaration tells whether it declares a parameter, and whether it declares a
static sampler. -/
theorem opens_iff {d : Declaration} (hx : Written dialect x d) :
    (opensParameter x = true ↔ d.parameter?.isSome = true) ∧
      (opensSampler x = true ↔ d.staticSampler?.isSome = true) := by
  cases d with
  | rootFlags fs =>
      obtain ⟨body, -, rfl⟩ := hx
      simp [opensParameter, opensSampler, opensWith, parameter?, staticSampler?]
  | parameter p =>
      obtain ⟨t, ts, -, rfl, -⟩ := exists_reader_of_written hx
      obtain rfl | ⟨type, rfl⟩ | rfl := RootParameter.opening_of_written hx
      · simp [opensParameter, opensSampler, opensWith, parameter?, staticSampler?]
      · cases type <;> simp [opensParameter, opensSampler, opensWith, parameter?, staticSampler?,
          DescriptorType.opening]
      · simp [opensParameter, opensSampler, opensWith, parameter?, staticSampler?]
  | staticSampler s =>
      obtain ⟨body, as, rfl, -⟩ := hx
      simp [opensParameter, opensSampler, opensWith, parameter?, staticSampler?]

end Declaration

/-- The declarations of a signature have no order, except for parameters and samplers. -/
theorem Signature.MadeOf.of_perm {ds ds' : List Declaration} {s : SignatureV1_1}
    (hperm : ds'.Perm ds)
    (hkinds : SameKinds (Declaration.Written dialect) [opensParameter, opensSampler] ds ds')
    (h : MadeOf ds s) : MadeOf ds' s where
  flags := h.flags.of_perm hperm
  parameters := by
    have hparameters : ds'.filterMap Declaration.parameter? =
        ds.filterMap Declaration.parameter? :=
      hkinds.filterMap_eq (by simp) fun x d hd => (Declaration.opens_iff hd).1
    exact h.parameters.trans hparameters.symm
  staticSamplers := by
    have hsamplers : ds'.filterMap Declaration.staticSampler? =
        ds.filterMap Declaration.staticSampler? :=
      hkinds.filterMap_eq (by simp) fun x d hd => (Declaration.opens_iff hd).2
    exact h.staticSamplers.trans hsamplers.symm

/-- Declarations one by one may stand with commas between them, and with one at the end. -/
theorem Grammar.declarations_of_forall₂ {xs : List (List Token)} {ds : List Declaration}
    {trailing : List Token} (hne : ds ≠ []) (h : List.Forall₂ (Declaration.Written dialect) xs ds)
    (htrailing : trailing = [] ∨ trailing = [.comma]) :
    Declarations dialect ([.comma].intercalate xs ++ trailing) ds := by
  have hlist := commaList_iff.2 ⟨xs, hne, rfl, h⟩
  rcases htrailing with rfl | rfl
  · rw [List.append_nil]
    exact .list hlist
  · exact .trailingComma hlist

/-- A signature is written in every rearranged way. -/
theorem Signature.written_rearranged {ts ts' : List Token} {s : SignatureV1_1}
    (h : Rearranged dialect ts ts') (hs : Signature.Written dialect ts s) :
    Signature.Written dialect ts' s := by
  obtain ⟨hwritten, hpieces, htrailing⟩ := h
  rename_i xs xs' trailing
  obtain ⟨ds', hxs⟩ := exists_forall₂ hwritten
  obtain ⟨ds'', hxs', hperm, hkinds⟩ := hpieces.forall₂ declaration_rightUnique
    (fun _ _ _ => Declaration.written_rearranged) hxs
  by_cases hne : ds' = []
  · -- No declarations at all can not be rearranged.
    subst hne
    obtain rfl := hperm.eq_nil
    rw [List.forall₂_nil_right_iff] at hxs hxs'
    rwa [hxs', ← hxs]
  · obtain ⟨ds, hds, hroom, hmade⟩ := hs
    obtain rfl := hds.unique hroom (declarations_of_forall₂ hne hxs htrailing)
    have hne' : ds'' ≠ [] := by
      rintro rfl
      exact hne hperm.symm.eq_nil
    refine ⟨ds'', declarations_of_forall₂ hne' hxs' htrailing, ?_, hmade.of_perm hperm hkinds⟩
    rwa [(hperm.filter _).length_eq]

end

/-! ## Sources -/

section
variable {ts ts' : List Token}

/-- Between the members of a list stands the separator, if there are two members at least. -/
theorem mem_intersperse_iff {α : Type} {sep a : α} {as : List α} :
    a ∈ as.intersperse sep ↔ a ∈ as ∨ a = sep ∧ 1 < as.length := by
  induction as with
  | nil => simp
  | cons b as ih =>
      cases as with
      | nil => simp
      | cons c as =>
          rw [List.intersperse_cons_cons, List.mem_cons, List.mem_cons, ih]
          by_cases hsep : a = sep <;> simp [hsep]

/-- A list can be written if its pieces can. -/
theorem isSpelled_intercalate_iff {xs : List (List Token)} :
    (∀ t ∈ [.comma].intercalate xs, t.IsSpelled) ↔ ∀ x ∈ xs, ∀ t ∈ x, t.IsSpelled := by
  refine ⟨fun h x hx t ht => ?_, fun h t ht => ?_⟩
  · exact h t (List.mem_flatten.2 ⟨x, mem_intersperse_iff.2 (.inl hx), ht⟩)
  · obtain ⟨x, hx, ht⟩ := List.mem_flatten.1 ht
    rcases mem_intersperse_iff.1 hx with hx | ⟨rfl, -⟩
    · exact h x hx t ht
    · rw [List.mem_singleton.1 ht]
      exact Token.isSpelled_comma

namespace Grammar

/-- Rearranged flags can be written if the flags could. -/
theorem FlagsRearranged.isSpelled (h : FlagsRearranged ts ts') (hts : ∀ t ∈ ts, t.IsSpelled) :
    ∀ t ∈ ts', t.IsSpelled := by
  obtain ⟨-, -, hmem⟩ := h
  intro t ht
  rcases mem_intersperse_iff.1 ht with ht | ⟨rfl, -⟩
  · exact hts t (mem_intersperse_iff.2 (.inl ((hmem t).2 ht)))
  · exact Token.isSpelled_verticalBar

theorem FlagsItemRearranged.isSpelled (h : FlagsItemRearranged ts ts')
    (hts : ∀ t ∈ ts, t.IsSpelled) : ∀ t ∈ ts', t.IsSpelled := by
  obtain ⟨hflags⟩ := h
  simp only [List.forall_mem_cons] at hts ⊢
  exact ⟨hts.1, hts.2.1, hflags.isSpelled hts.2.2⟩

section
variable {kinds : List (List Token → Bool)} {Within : List Token → List Token → Prop}
  (hwithin : ∀ x x', Within x x' → (∀ t ∈ x, t.IsSpelled) → ∀ t ∈ x', t.IsSpelled)
include hwithin

theorem PiecesRearranged.isSpelled {xs xs' : List (List Token)}
    (h : PiecesRearranged kinds Within xs xs')
    (hxs : ∀ t ∈ [.comma].intercalate xs, t.IsSpelled) :
    ∀ t ∈ [.comma].intercalate xs', t.IsSpelled := by
  rw [isSpelled_intercalate_iff] at hxs ⊢
  cases h with
  | moved hperm _ => exact fun x hx => hxs x (hperm.mem_iff.1 hx)
  | within hx =>
      simp only [List.forall_mem_append, List.forall_mem_cons] at hxs ⊢
      exact ⟨hxs.1, hwithin _ _ hx hxs.2.1, hxs.2.2⟩

theorem ConstructRearranged.isSpelled {α : Type} {o : Opening} {item : Rule α}
    (h : ConstructRearranged o item kinds Within ts ts') (hts : ∀ t ∈ ts, t.IsSpelled) :
    ∀ t ∈ ts', t.IsSpelled := by
  obtain ⟨-, hpieces⟩ := h
  simp only [List.forall_mem_cons, List.forall_mem_append] at hts ⊢
  exact ⟨hts.1, hts.2.1, hpieces.isSpelled hwithin hts.2.2.1, hts.2.2.2⟩

end

variable {dialect : Dialect}

theorem RangeRearranged.isSpelled (h : RangeRearranged dialect ts ts')
    (hts : ∀ t ∈ ts, t.IsSpelled) : ∀ t ∈ ts', t.IsSpelled := by
  obtain ⟨type, h⟩ := h
  exact h.isSpelled (fun _ _ => FlagsItemRearranged.isSpelled) hts

theorem DeclarationRearranged.isSpelled (h : DeclarationRearranged dialect ts ts')
    (hts : ∀ t ∈ ts, t.IsSpelled) : ∀ t ∈ ts', t.IsSpelled := by
  cases h with
  | rootFlags h =>
      simp only [List.forall_mem_cons, List.forall_mem_append] at hts ⊢
      exact ⟨hts.1, hts.2.1, h.isSpelled hts.2.2.1, hts.2.2.2⟩
  | constants h | staticSampler h =>
      exact h.isSpelled (fun _ _ => FlagsItemRearranged.isSpelled) hts
  | descriptor type h => exact h.isSpelled (fun _ _ => FlagsItemRearranged.isSpelled) hts
  | table h => exact h.isSpelled (fun _ _ => RangeRearranged.isSpelled) hts

/-- What is rearranged of a source can be written. -/
theorem Rearranged.isSpelled (h : Rearranged dialect ts ts') (hts : ∀ t ∈ ts, t.IsSpelled) :
    ∀ t ∈ ts', t.IsSpelled := by
  obtain ⟨-, hpieces, -⟩ := h
  simp only [List.forall_mem_append] at hts ⊢
  exact ⟨hpieces.isSpelled (fun _ _ => DeclarationRearranged.isSpelled) hts.1, hts.2⟩

end Grammar

end

/-- Order does not count where the language says so. Every rearranged list of tokens of an accepted
source is that of a source, and all sources that have it are accepted as the same signature. -/
theorem parse_rearranged (source : String) (base : Location) (version : Version)
    (mode : BindingMode) (d : VersionedSignature) (ts : List Token)
    (h : parse source base version mode = .ok d)
    (hts : Rearranged (mode.dialect version)
      ((TokenStream.ofSource source base).lexemes.map Lexeme.token) ts) :
    (∃ source', (TokenStream.ofSource source' base).lexemes.map Lexeme.token = ts) ∧
      ∀ source' base', (TokenStream.ofSource source' base').lexemes.map Lexeme.token = ts →
        parse source' base' version mode = .ok d := by
  obtain ⟨s, hread, hd⟩ := parse_eq_ok_iff.1 h
  rw [readSource_signature_eq_ok_iff] at hread
  refine ⟨?_, fun source' base' hsource' => parse_eq_ok_iff.2 ⟨s, ?_, hd⟩⟩
  · obtain ⟨source', hsource'⟩ :=
      exists_source_of_isSpelled (hts.isSpelled fun _ => Token.isSpelled_of_mem)
    exact ⟨source', hsource' base⟩
  · rw [readSource_signature_eq_ok_iff, hsource']
    exact Signature.written_rearranged hts hread

/-- The flags of a view in another order, and one of them twice. -/
theorem parse_rearranged_cbv :
    parse "CBV(b0, flags=DATA_STATIC | DATA_VOLATILE)" .first .v1_1 .globalMode =
        .ok (.v1_1 ⟨∅, [⟨.descriptor ⟨.cbv, 0, 0, ⟨0xA⟩⟩, .all⟩], []⟩) ∧
      parse "CBV(b0, flags=DATA_VOLATILE|DATA_STATIC|DATA_VOLATILE)" ⟨7⟩ .v1_1 .globalMode =
        .ok (.v1_1 ⟨∅, [⟨.descriptor ⟨.cbv, 0, 0, ⟨0xA⟩⟩, .all⟩], []⟩) := by
  have hparse : parse "CBV(b0, flags=DATA_STATIC | DATA_VOLATILE)" .first .v1_1 .globalMode =
      .ok (.v1_1 ⟨∅, [⟨.descriptor ⟨.cbv, 0, 0, ⟨0xA⟩⟩, .all⟩], []⟩) := by
    rw [parse_eq_ok_iff]
    exact ⟨_, signature_eq_ok_iff.2 ⟨by decide +kernel, by decide +kernel⟩, rfl⟩
  -- The pieces of the list in parentheses: the register, and the flags in both ways.
  let register : List Token := [.register ⟨.b, 0⟩]
  let static : Token := .keyword (.rangeFlag .dataStatic)
  let volatile : Token := .keyword (.rangeFlag .dataVolatile)
  let flags (ws : List Token) : List Token :=
    .keyword (.parameter .flags) :: .equals :: ws.intersperse .verticalBar
  let view (ws : List Token) : List Token :=
    .keyword (.opening .cbv) :: .leftParen ::
      ([.comma].intercalate [register, flags ws] ++ [.rightParen])
  have hregister (dialect : Dialect) : DescriptorItem.Written dialect .cbv register (.register 0) :=
    rfl
  have hflags : DescriptorItem.Written ⟨.v1_1, true⟩ .cbv (flags [static, volatile])
      (.flags (.ofList [.dataStatic, .dataVolatile])) :=
    ⟨rfl, _, rfl, .words (.cons rfl (.single rfl))⟩
  have hview : Declaration.Written ⟨.v1_1, true⟩ (view [static, volatile])
      (.parameter ⟨.descriptor ⟨.cbv, 0, 0, .ofList [.dataStatic, .dataVolatile]⟩, .all⟩) :=
    .descriptor .cbv ⟨_, _, rfl, .cons (hregister _) (.single hflags), by decide,
      .intro (by simp) (.inr ⟨by simp, rfl⟩) (.inl (by simp)) (.inr ⟨by simp, rfl⟩)⟩
  have hrearranged : DeclarationRearranged ⟨.v1_1, true⟩ (view [static, volatile])
      (view [volatile, static, volatile]) := by
    refine .descriptor .cbv (.intro ?_ (@PiecesRearranged.within _ _ [register] [] _ _ (.intro
      (.intro (by simp) (by simp [Token.IsFlag, static, volatile]) (by simp)))))
    simp only [List.forall_mem_cons]
    exact ⟨⟨_, hregister _⟩, ⟨_, hflags⟩, by simp⟩
  have htokens : (TokenStream.ofSource "CBV(b0, flags=DATA_STATIC | DATA_VOLATILE)"
      .first).lexemes.map Lexeme.token =
        [.comma].intercalate [view [static, volatile]] ++ [] := by
    decide +kernel
  have htokens' : (TokenStream.ofSource "CBV(b0, flags=DATA_VOLATILE|DATA_STATIC|DATA_VOLATILE)"
      ⟨7⟩).lexemes.map Lexeme.token =
        [.comma].intercalate [view [volatile, static, volatile]] ++ [] := by
    decide +kernel
  refine ⟨hparse, (parse_rearranged _ _ _ _ _ _ hparse ?_).2 _ _ htokens'⟩
  rw [htokens]
  refine .intro ?_ (@PiecesRearranged.within _ _ [] [] _ _ hrearranged) (.inl rfl)
  simp only [List.forall_mem_singleton]
  exact ⟨_, hview⟩

end RootSignature
