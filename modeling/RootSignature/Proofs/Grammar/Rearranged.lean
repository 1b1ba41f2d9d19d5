import RootSignature.Proofs.Grammar.Pieces

/-!
# Rearranged lists of tokens

The language does not give an order to everything: the items of a construct, the flags of a list,
the visibility among the ranges of a table, and declarations of different kinds may be moved.
`Rearranged` relates the tokens of a source to those after one change of this kind, and is put
together from the changes of its parts. The pieces that are moved are those that the grammar writes,
so a comma in the parentheses of a range is none of the table.

A rearranged list of flags is the same set (`FlagsRearranged.flags`), and rearranged pieces stand
for the same values, up to what may be moved (`PiecesRearranged.forall₂`). So a construct stands for
the same value if what it makes of its items does not depend on their order
(`ConstructRearranged.construct`).
-/

namespace RootSignature

open Grammar

/-! ## Rearrangements -/

/-- The token of a flag, of whatever family. -/
def Token.IsFlag (t : Token) : Prop :=
  (∃ f, t = .keyword (.rootFlag f)) ∨ ∃ f, t = .keyword (.rangeFlag f)

namespace Grammar

/-- The flags of a list are moved, or some of them are given more often, or less often but still
given. -/
inductive FlagsRearranged : List Token → List Token → Prop
  | intro {ws ws' : List Token} : ws ≠ [] → (∀ w ∈ ws, w.IsFlag) → (∀ w, w ∈ ws ↔ w ∈ ws') →
      FlagsRearranged (ws.intersperse .verticalBar) (ws'.intersperse .verticalBar)

/-- The flags of an item are rearranged. -/
inductive FlagsItemRearranged : List Token → List Token → Prop
  | intro {ts ts' : List Token} : FlagsRearranged ts ts' →
      FlagsItemRearranged (.keyword (.parameter .flags) :: .equals :: ts)
        (.keyword (.parameter .flags) :: .equals :: ts')

/-- The pieces of a list are moved, where those of each given kind keep their order among
themselves, or one of the pieces is rearranged within. -/
inductive PiecesRearranged (kinds : List (List Token → Bool))
    (Within : List Token → List Token → Prop) : List (List Token) → List (List Token) → Prop
  | moved {xs xs' : List (List Token)} : xs'.Perm xs →
      (∀ kind ∈ kinds, xs'.filter kind = xs.filter kind) → PiecesRearranged kinds Within xs xs'
  | within {front back : List (List Token)} {x x' : List Token} : Within x x' →
      PiecesRearranged kinds Within (front ++ x :: back) (front ++ x' :: back)

/-- The items of a construct are rearranged, which are written by a rule. -/
inductive ConstructRearranged {α : Type} (o : Opening) (item : Rule α)
    (kinds : List (List Token → Bool)) (Within : List Token → List Token → Prop) :
    List Token → List Token → Prop
  | intro {xs xs' : List (List Token)} : (∀ x ∈ xs, ∃ a, item x a) →
      PiecesRearranged kinds Within xs xs' →
      ConstructRearranged o item kinds Within
        (.keyword (.opening o) :: .leftParen :: ([.comma].intercalate xs ++ [.rightParen]))
        (.keyword (.opening o) :: .leftParen :: ([.comma].intercalate xs' ++ [.rightParen]))

/-- A piece opens with one of the words. -/
def opensWith (os : List Opening) (x : List Token) : Bool :=
  os.any fun o => x.head? = some (.keyword (.opening o))

/-- The piece is a range. -/
def opensRange : List Token → Bool := opensWith [.cbv, .srv, .uav, .sampler]

/-- The piece is the declaration of a parameter. -/
def opensParameter : List Token → Bool :=
  opensWith [.rootConstants, .cbv, .srv, .uav, .descriptorTable]

/-- The piece is the declaration of a static sampler. -/
def opensSampler : List Token → Bool := opensWith [.staticSampler]

/-- The items of a range are moved, or its flags are rearranged. -/
inductive RangeRearranged (dialect : Dialect) : List Token → List Token → Prop
  | intro (type : RangeType) {ts ts' : List Token} :
      ConstructRearranged type.opening (RangeItem.Written dialect type) [] FlagsItemRearranged
        ts ts' →
      RangeRearranged dialect ts ts'

/-- The items of a declaration are moved, or one of them is rearranged within. The ranges of a table
keep their order. -/
inductive DeclarationRearranged (dialect : Dialect) : List Token → List Token → Prop
  | rootFlags {ts ts' : List Token} : FlagsRearranged ts ts' →
      DeclarationRearranged dialect
        (.keyword (.opening .rootFlags) :: .leftParen :: (ts ++ [.rightParen]))
        (.keyword (.opening .rootFlags) :: .leftParen :: (ts' ++ [.rightParen]))
  | constants {ts ts' : List Token} :
      ConstructRearranged .rootConstants ConstantsItem.Written [] FlagsItemRearranged ts ts' →
      DeclarationRearranged dialect ts ts'
  | descriptor (type : DescriptorType) {ts ts' : List Token} :
      ConstructRearranged type.opening (DescriptorItem.Written dialect type) [] FlagsItemRearranged
        ts ts' →
      DeclarationRearranged dialect ts ts'
  | table {ts ts' : List Token} :
      ConstructRearranged .descriptorTable (TableItem.Written dialect) [opensRange]
        (RangeRearranged dialect) ts ts' →
      DeclarationRearranged dialect ts ts'
  | staticSampler {ts ts' : List Token} :
      ConstructRearranged .staticSampler SamplerItem.Written [] FlagsItemRearranged ts ts' →
      DeclarationRearranged dialect ts ts'

/-- The declarations are moved, or one of them is rearranged within. Parameters keep their order,
and so do static samplers. -/
inductive Rearranged (dialect : Dialect) : List Token → List Token → Prop
  | intro {xs xs' : List (List Token)} {trailing : List Token} :
      (∀ x ∈ xs, ∃ d, Declaration.Written dialect x d) →
      PiecesRearranged [opensParameter, opensSampler] (DeclarationRearranged dialect) xs xs' →
      trailing = [] ∨ trailing = [.comma] →
      Rearranged dialect ([.comma].intercalate xs ++ trailing)
        ([.comma].intercalate xs' ++ trailing)

end Grammar

/-! ## Flags -/

namespace Grammar

section
variable {F : Type} {word : Token → F → Prop}

/-- Flags with bars between them are written one by one. -/
theorem forall₂_of_flagWords {ws : List Token} {fs : List F}
    (h : FlagWords word (ws.intersperse .verticalBar) fs) : List.Forall₂ word ws fs := by
  induction ws generalizing fs with
  | nil => cases h
  | cons w ws ih =>
      cases ws with
      | nil =>
          cases h with
          | single hf => exact .cons hf .nil
      | cons w' ws =>
          rw [List.intersperse_cons_cons] at h
          cases h with
          | cons hf hfs => exact .cons hf (ih hfs)

/-- Flags that are written one by one may stand with bars between them. -/
theorem flagWords_of_forall₂ {ws : List Token} {fs : List F} (hne : ws ≠ [])
    (h : List.Forall₂ word ws fs) : FlagWords word (ws.intersperse .verticalBar) fs := by
  induction h with
  | nil => exact absurd rfl hne
  | @cons w f ws fs hf hfs ih =>
      cases hfs with
      | nil => exact .single hf
      | cons hg hfs =>
          rw [List.intersperse_cons_cons]
          exact .cons hf (ih (by simp))

/-- Rearranged flags are the same set. -/
theorem FlagsRearranged.flags [Flag F] {ts ts' : List Token} (h : FlagsRearranged ts ts')
    (hword : Relator.RightUnique word) {s : FlagSet F} (hs : Flags word ts s) :
    Flags word ts' s := by
  obtain ⟨hne, hflag, hmem⟩ := h
  rename_i ws ws'
  have hne' : ws' ≠ [] := by
    obtain ⟨w, hw⟩ := List.exists_mem_of_ne_nil ws hne
    exact List.ne_nil_of_mem ((hmem w).1 hw)
  generalize hts : ws.intersperse .verticalBar = ts at hs
  cases hs with
  | zero =>
      -- A zero is no flag.
      obtain ⟨w, ws, rfl⟩ := List.exists_cons_of_ne_nil hne
      have hw : w = .uint 0 := by
        cases ws with
        | nil => simpa using hts
        | cons w' ws => simp at hts
      simpa [Token.IsFlag, hw] using hflag w (List.mem_cons_self ..)
  | @words _ fs hfs =>
      subst hts
      have hforall := forall₂_of_flagWords hfs
      obtain ⟨fs', hfs'⟩ : ∃ fs', List.Forall₂ word ws' fs' := by
        refine exists_forall₂ fun w hw => ?_
        obtain ⟨f, -, hf⟩ := exists_of_mem_forall₂ hforall.flip ((hmem w).2 hw)
        exact ⟨f, hf⟩
      -- The words are the same, and each of them stands for one flag.
      have hsub {ws ws' : List Token} {fs fs' : List F} (h : List.Forall₂ word ws fs)
          (h' : List.Forall₂ word ws' fs') (hmem : ∀ w ∈ ws, w ∈ ws') : ∀ f ∈ fs, f ∈ fs' := by
        intro f hf
        obtain ⟨w, hw, hwf⟩ := exists_of_mem_forall₂ h hf
        obtain ⟨f', hf', hwf'⟩ := exists_of_mem_forall₂ h'.flip (hmem w hw)
        rwa [hword hwf hwf']
      have hsame (f : F) : f ∈ fs ↔ f ∈ fs' :=
        ⟨hsub hforall hfs' (fun w => (hmem w).1) f, hsub hfs' hforall (fun w => (hmem w).2) f⟩
      rw [FlagSet.ofList_eq_of_mem_iff hsame]
      exact .words (flagWords_of_forall₂ hne' hfs')

end

/-! ## Lists -/

section
variable {α β : Type} {item : Rule α} {kinds : List (List Token → Bool)}
  {Within : List Token → List Token → Prop}

/-- All that the kinds tell of pieces says the same of two lists of values. -/
def SameKinds (item : Rule α) (kinds : List (List Token → Bool)) (as as' : List α) : Prop :=
  ∀ kind ∈ kinds, ∀ p : α → Bool, (∀ x a, item x a → (kind x = true ↔ p a = true)) →
    as'.filter p = as.filter p

/-- A piece may be written in another way. -/
theorem forall₂_within {front back : List (List Token)} {x x' : List Token} {as : List α}
    (hx : ∀ a, item x a → item x' a) (h : List.Forall₂ item (front ++ x :: back) as) :
    List.Forall₂ item (front ++ x' :: back) as := by
  induction front generalizing as with
  | nil =>
      cases h with
      | cons ha h => exact .cons (hx _ ha) h
  | cons y front ih =>
      cases h with
      | cons ha h => exact .cons ha (ih h)

/-- Rearranged pieces are written as the same values, which are moved at most. -/
theorem PiecesRearranged.forall₂ {xs xs' : List (List Token)}
    (h : PiecesRearranged kinds Within xs xs') (hitem : Relator.RightUnique item)
    (hwithin : ∀ x x' a, Within x x' → item x a → item x' a) {as : List α}
    (hxs : List.Forall₂ item xs as) :
    ∃ as', List.Forall₂ item xs' as' ∧ as'.Perm as ∧ SameKinds item kinds as as' := by
  cases h with
  | moved hperm hkinds =>
      obtain ⟨as', hxs', hperm'⟩ := List.perm_comp_forall₂ hperm hxs
      refine ⟨as', hxs', hperm', fun kind hkind p hp => ?_⟩
      -- The pieces of a kind are the same, and so are the values that they stand for.
      have hfilter := List.rel_filter (fun x a hx => hp x a hx) hxs
      have hfilter' := List.rel_filter (fun x a hx => hp x a hx) hxs'
      rw [hkinds kind hkind] at hfilter'
      exact List.right_unique_forall₂' hitem hfilter' hfilter
  | within hx =>
      exact ⟨as, forall₂_within (fun a => hwithin _ _ a hx) hxs, .refl as, fun _ _ _ _ => rfl⟩

/-- What is given or else the default does not depend on the order of items. -/
theorem GivenOr.of_perm {as as' : List α} {make : β → α} {default b : β} (hperm : as'.Perm as)
    (h : GivenOr as make default b) : GivenOr as' make default b := by
  simpa only [GivenOr, hperm.mem_iff] using h

/-- A construct is written as the same value when its items are rearranged, if moving them does not
count for what they make. -/
theorem ConstructRearranged.construct {o : Opening} {ts ts' : List Token}
    (h : ConstructRearranged o item kinds Within ts ts') (hcuts : Cuts item)
    (hwithin : ∀ x x' a, Within x x' → item x a → item x' a) {Makes : List α → β → Prop}
    (hmakes : ∀ {as as' b}, as'.Perm as → SameKinds item kinds as as' → Makes as b → Makes as' b)
    {slot? : α → Option Slot} {b : β} (hb : Construct o item slot? Makes ts b) :
    Construct o item slot? Makes ts' b := by
  obtain ⟨hwritten, hpieces⟩ := h
  obtain ⟨body, as, hts, hlist, hnodup, hb⟩ := hb
  obtain rfl := List.append_cancel_right (List.cons_eq_cons.1 (List.cons_eq_cons.1 hts).2).2
  have hxs := hcuts.forall₂_of_commaList hwritten hlist
  obtain ⟨as', hxs', hperm, hkinds⟩ := hpieces.forall₂ hcuts.rightUnique hwithin hxs
  obtain ⟨-, hne, -, -⟩ := commaList_iff.1 hlist
  have hne' : as' ≠ [] := by
    rintro rfl
    exact hne hperm.symm.eq_nil
  refine ⟨_, as', rfl, commaList_iff.2 ⟨_, hne', rfl, hxs'⟩, ?_, hmakes hperm hkinds hb⟩
  exact ((hperm.filterMap slot?).nodup_iff).2 hnodup

end

end Grammar

end RootSignature
