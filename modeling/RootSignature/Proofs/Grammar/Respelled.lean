import RootSignature.Proofs.Grammar.Written

/-!
# Numbers that stand for the same float

The parameters of a static sampler that are floats take any number. If one is exchanged for another
that stands for the same float (`Respelled`), the same signature is written
(`Signature.respects_written`): every rule of the grammar respects it, since no other value follows
the name of such a parameter.
-/

namespace RootSignature

open Grammar

/-- The value of the parameter is a float. -/
def Parameter.isFloat : Parameter → Bool
  | mipLodBias | minLod | maxLod => true
  | _ => false

/-- Behind the names of parameters that are floats, numbers are exchanged for others that stand for
the same float. -/
inductive Respelled : List Token → List Token → Prop
  | nil : Respelled [] []
  | cons (t : Token) {ts us : List Token} : Respelled ts us → Respelled (t :: ts) (t :: us)
  | value {p : Parameter} {a b : Token} {x : Binary32} {ts us : List Token} : p.isFloat = true →
      FloatNumber [a] x → FloatNumber [b] x → Respelled ts us →
      Respelled (.keyword (.parameter p) :: .equals :: a :: ts)
        (.keyword (.parameter p) :: .equals :: b :: us)

/-- Tokens are written for one float at most. -/
theorem Grammar.FloatNumber.unique {ts : List Token} {x y : Binary32} (hx : FloatNumber ts x)
    (hy : FloatNumber ts y) : x = y := by
  cases hx <;> cases hy <;> rfl

namespace Respelled

/-- Tokens are a spelling of themselves. -/
theorem refl (ts : List Token) : Respelled ts ts := by
  induction ts with
  | nil => exact .nil
  | cons t ts ih => exact .cons t ih

/-- What stands in front is not spelled in another way. -/
theorem append_left (front : List Token) {ts us : List Token} (h : Respelled ts us) :
    Respelled (front ++ ts) (front ++ us) := by
  induction front with
  | nil => exact h
  | cons t front ih => exact .cons t ih

/-- A token alone is not exchanged. -/
theorem eq_of_single {t : Token} {us : List Token} (h : Respelled [t] us) : us = [t] := by
  cases h with
  | cons _ h =>
      cases h
      rfl

/-- Lists that are cut at a comma or at a closing parenthesis are exchanged apart. -/
theorem split {ts ts' us : List Token} {mark : Token} (h : Respelled (ts ++ mark :: ts') us)
    (hmark : mark = .comma ∨ mark = .rightParen) :
    ∃ vs vs', us = vs ++ mark :: vs' ∧ Respelled ts vs ∧ Respelled ts' vs' := by
  generalize hfull : ts ++ mark :: ts' = full at h
  induction h generalizing ts with
  | nil => simp at hfull
  | @cons t rest us h ih =>
      cases ts with
      | nil =>
          obtain ⟨rfl, rfl⟩ := List.cons_eq_cons.1 hfull
          exact ⟨[], us, rfl, .nil, h⟩
      | cons t' ts =>
          obtain ⟨rfl, rfl⟩ := List.cons_eq_cons.1 hfull
          obtain ⟨vs, vs', rfl, hvs, hvs'⟩ := ih rfl
          exact ⟨t' :: vs, vs', rfl, .cons t' hvs, hvs'⟩
  | @value p a b x rest us hp ha hb h ih =>
      -- Neither the name, nor the equals sign, nor the number is such a mark.
      rcases ts with _ | ⟨t₁, _ | ⟨t₂, _ | ⟨t₃, ts⟩⟩⟩ <;>
        simp only [List.nil_append, List.cons_append, List.cons.injEq] at hfull
      · obtain ⟨rfl, -⟩ := hfull
        simp at hmark
      · obtain ⟨-, rfl, -⟩ := hfull
        simp at hmark
      · obtain ⟨-, -, rfl, -⟩ := hfull
        cases ha <;> simp at hmark
      · obtain ⟨rfl, rfl, rfl, hrest⟩ := hfull
        obtain ⟨vs, vs', rfl, hvs, hvs'⟩ := ih hrest
        exact ⟨_, vs', rfl, .value hp ha hb hvs, hvs'⟩

end Respelled

/-! ## Rules -/

/-- What is written stays the same if numbers are exchanged for others that stand for the same
float. -/
def Respects {α : Type} (rule : Rule α) : Prop :=
  ∀ ⦃ts us : List Token⦄ ⦃a : α⦄, rule ts a → Respelled ts us → rule us a

section
variable {α β : Type} {dialect : Dialect}

/-- Single tokens are not exchanged. -/
theorem respects_of_single {rule : Rule α} (h : ∀ ts a, rule ts a → ∃ t, ts = [t]) :
    Respects rule := by
  intro ts us a ha hus
  obtain ⟨t, rfl⟩ := h ts a ha
  rwa [hus.eq_of_single]

/-- Whole numbers are not floats, and are spelled in one way. -/
theorem respects_number : Respects Number :=
  respects_of_single fun _ _ h => ⟨_, h⟩

theorem respects_word (keyword : α → Keyword) : Respects (Word keyword) :=
  respects_of_single fun _ _ h => ⟨_, h⟩

theorem respects_register (c : RegisterClass) : Respects (Grammar.Register c) :=
  respects_of_single fun _ _ h => ⟨_, h⟩

theorem respects_count : Respects Count :=
  respects_of_single fun _ c h => by
    cases c <;> exact ⟨_, h⟩

theorem respects_offset : Respects Offset :=
  respects_of_single fun _ o h => by
    cases o <;> exact ⟨_, h⟩

/-- Flags have no names of parameters among them. -/
theorem respects_flags {F : Type} [Flag F] (word : Token → F → Prop) : Respects (Flags word) := by
  intro ts us fs h hus
  cases h with
  | zero => rw [hus.eq_of_single]; exact .zero
  | @words ts fs h =>
      have hsame : us = ts := by
        induction h generalizing us with
        | single _ => exact hus.eq_of_single
        | cons _ _ ih =>
            cases hus with
            | cons _ hus =>
                cases hus with
                | cons _ hus => rw [ih hus]
      rw [hsame]
      exact .words h

/-- Values of the other parameters are not exchanged. -/
theorem Respects.named {value : Rule α} (hvalue : Respects value) {p : Parameter}
    (hp : p.isFloat = false) : Respects (Named p value) := by
  rintro _ us a ⟨vs, rfl, hvs⟩ hus
  cases hus with
  | cons _ hus =>
      cases hus with
      | cons _ hus => exact ⟨_, rfl, hvalue hvs hus⟩
  | value hp' => rw [hp] at hp'; cases hp'

/-- The float that a parameter is given is the same. -/
theorem respects_named_floatNumber (p : Parameter) : Respects (Named p FloatNumber) := by
  rintro _ us x ⟨vs, rfl, hvs⟩ hus
  obtain ⟨t, rfl⟩ : ∃ t, vs = [t] := by
    cases hvs <;> exact ⟨_, rfl⟩
  cases hus with
  | cons _ hus =>
      cases hus with
      | cons _ hus => exact ⟨_, rfl, hus.eq_of_single ▸ hvs⟩
  | value _ ha hb hrest =>
      cases hrest
      exact ⟨_, rfl, hvs.unique ha ▸ hb⟩

/-- Items with commas between them can be spelled one by one. -/
theorem Respects.commaList {item : Rule α} (hitem : Respects item) :
    Respects (CommaList item) := by
  intro ts us as h hus
  induction h generalizing us with
  | single ha => exact .single (hitem ha hus)
  | cons ha _ ih =>
      obtain ⟨vs, vs', rfl, hvs, hvs'⟩ := hus.split (.inl rfl)
      exact .cons (hitem ha hvs) (ih hvs')

/-- What stands in parentheses behind an opening word is exchanged by itself. -/
theorem Respelled.of_parentheses {opening : Opening} {body us : List Token}
    (h : Respelled (.keyword (.opening opening) :: .leftParen :: (body ++ [.rightParen])) us) :
    ∃ body', us = .keyword (.opening opening) :: .leftParen :: (body' ++ [.rightParen]) ∧
      Respelled body body' := by
  cases h with
  | cons _ h =>
      cases h with
      | cons _ h =>
          obtain ⟨body', _, rfl, hbody, hnil⟩ := h.split (.inr rfl)
          cases hnil
          exact ⟨body', rfl, hbody⟩

/-- The items of a construct can be spelled in another way. -/
theorem Respects.construct {item : Rule α} (hitem : Respects item) (opening : Opening)
    (slot? : α → Option Slot) (Makes : List α → β → Prop) :
    Respects (Construct opening item slot? Makes) := by
  rintro _ us b ⟨body, as, rfl, hbody, hnodup, hmakes⟩ hus
  obtain ⟨body', rfl, hbody'⟩ := hus.of_parentheses
  exact ⟨body', as, rfl, hitem.commaList hbody hbody', hnodup, hmakes⟩

/-! ## Constructs -/

/-- No item of root constants changes with the spelling of floats. -/
theorem respects_constantsItem : Respects ConstantsItem.Written := by
  intro ts us item h hus
  cases item with
  | valueCount n | space n => exact respects_number.named rfl h hus
  | register n => exact respects_register .b h hus
  | visibility v => exact (respects_word _).named rfl h hus

theorem respects_descriptorItem (type : DescriptorType) :
    Respects (DescriptorItem.Written dialect type) := by
  intro ts us item h hus
  cases item with
  | register n => exact respects_register _ h hus
  | flags fs => exact ⟨h.1, (respects_flags _).named rfl h.2 hus⟩
  | space n => exact respects_number.named rfl h hus
  | visibility v => exact (respects_word _).named rfl h hus

theorem respects_rangeItem (type : RangeType) : Respects (RangeItem.Written dialect type) := by
  intro ts us item h hus
  cases item with
  | register n => exact respects_register _ h hus
  | count c => exact respects_count.named rfl h hus
  | space n => exact respects_number.named rfl h hus
  | flags fs => exact ⟨h.1, (respects_flags _).named rfl h.2 hus⟩
  | offset o => exact respects_offset.named rfl h hus

theorem respects_tableItem : Respects (TableItem.Written dialect) := by
  intro ts us item h hus
  cases item with
  | range r => exact (respects_rangeItem r.type).construct _ _ _ h hus
  | visibility v => exact (respects_word _).named rfl h hus

/-- No item of a static sampler changes with the spelling of floats, though three of them have
one. -/
theorem respects_samplerItem : Respects SamplerItem.Written := by
  intro ts us item h hus
  cases item with
  | mipLodBias x | minLod x | maxLod x => exact respects_named_floatNumber _ h hus
  | maxAnisotropy n | space n => exact respects_number.named rfl h hus
  | register n => exact respects_register .s h hus
  | filter _ | addressU _ | addressV _ | addressW _ | comparison _ | borderColor _ | visibility _ =>
      exact (respects_word _).named rfl h hus

theorem respects_declaration : Respects (Declaration.Written dialect) := by
  intro ts us d h hus
  cases d with
  | rootFlags fs =>
      obtain ⟨body, hbody, rfl⟩ := h
      obtain ⟨body', rfl, hbody'⟩ := hus.of_parentheses
      exact ⟨body', respects_flags _ hbody hbody', rfl⟩
  | parameter p =>
      cases h with
      | constants h => exact .constants (respects_constantsItem.construct _ _ _ h hus)
      | descriptor type h =>
          exact .descriptor type ((respects_descriptorItem type).construct _ _ _ h hus)
      | table h => exact .table (respects_tableItem.construct _ _ _ h hus)
  | staticSampler s => exact respects_samplerItem.construct _ _ _ h hus

theorem respects_declarations : Respects (Declarations dialect) := by
  intro ts us ds h hus
  cases h with
  | empty =>
      cases hus
      exact .empty
  | list h => exact .list (respects_declaration.commaList h hus)
  | trailingComma h =>
      obtain ⟨vs, _, rfl, hvs, hnil⟩ := hus.split (.inl rfl)
      cases hnil
      exact .trailingComma (respects_declaration.commaList h hvs)

/-- A signature is the same if floats are given by other numbers. -/
theorem Signature.respects_written : Respects (Signature.Written dialect) := by
  rintro ts us s ⟨ds, hds, hroom, hmade⟩ hus
  exact ⟨ds, respects_declarations hds hus, hroom, hmade⟩

end

end RootSignature
