import RootSignature.Proofs.Error.Reasons

/-!
# Where registers are refused

A register is refused for its class only where a list of items reads it as the register of a
descriptor or of a range (`refusesRegister_of_readDeclarations`). Everything else that takes a
register looks at its class before, or refuses it as a token: values and flags are no registers
(`Reader.Lenient`), and constants and static samplers start their register with a token of the right
class (`Item.RefusesOnly`).

The proof follows an error back from the list of declarations to the declaration that fails, from
there to the item that fails, and once more so in a table. What has been read before that is well
written, and ends in a comma (`Grammar.BehindComma`).
-/

namespace RootSignature

open Grammar Reader

variable {α β : Type} {dialect : Dialect} {stop : Location}

/-- A register is of another class than it should be. -/
def Reason.IsRegisterClass : Reason → Prop
  | incorrectRegisterClass _ _ => True
  | _ => False

namespace Reader

/-! ## Readers that refuse no register -/

/-- The reader refuses no register for its class. -/
def Lenient (r : Reader α) : Prop :=
  ∀ stop ls e, r.Fails stop ls e → ¬ e.reason.IsRegisterClass

/-- A reader of a value does not ask for the class of a register. -/
theorem RefusesFor.lenient {r : Reader α} (h : r.RefusesFor Reason.OfValue) : r.Lenient := by
  intro stop ls e hfails hclass
  have hvalue := h stop ls e hfails
  cases hreason : e.reason with
  | incorrectRegisterClass =>
      rw [hreason] at hvalue
      exact hvalue
  | _ =>
      rw [hreason] at hclass
      exact hclass

end Reader

/-! ## Items -/

/-- From its first token on, the item refuses a register for its class only if that is the first
token and should be of a certain class. -/
def Item.RefusesOnly (c : RegisterClass) (t : Token) (item : Item α) : Prop :=
  item.read.Lenient ∨
    ∃ (r : Register) (make : UInt32 → α), t = .register r ∧ item.read = make <$> Reader.register c

/-- An item that fails for a class fails at a register, which is its first token. -/
theorem Item.RefusesOnly.of_fails {c : RegisterClass} {item : Item α} {l : Lexeme}
    {ls : List Lexeme} {e : ParseError} (h : item.RefusesOnly c l.token)
    (hfails : item.read.Fails stop (l :: ls) e) (hclass : e.reason.IsRegisterClass) :
    ∃ r, l.token = .register r ∧ r.registerClass ≠ c ∧
      e = .atLexeme (.incorrectRegisterClass l.text c) l := by
  rcases h with hlenient | ⟨r, make, hl, hread⟩
  · exact absurd hclass (hlenient _ _ _ hfails)
  · obtain ⟨rest, hrun⟩ := hfails
    rw [hread, run_map_eq_error_iff, register_eq_take, run_take, head_cons, hl] at hrun
    dsimp only at hrun
    by_cases hc : r.registerClass = c
    · simp [hc] at hrun
    · rw [if_neg hc] at hrun
      cases hrun
      exact ⟨r, hl, hc, rfl⟩

section
variable {t : Token}

/-- An item that is given by its name refuses no register. -/
theorem Item.refusesOnly_named (c : RegisterClass) (p : Parameter) {value : Reader α}
    (h : value.RefusesFor Reason.OfValue) : (Item.named p value).RefusesOnly c t :=
  .inl (h.assigned fun _ h => h).lenient

/-- Items of root constants ask for constant buffer registers only. -/
theorem ConstantsItem.refusesOnly {item : Item ConstantsItem} (h : ofToken? t = some item) :
    item.RefusesOnly .b t := by
  cases t with
  | register r =>
      obtain ⟨c, n⟩ := r
      cases c with
      | b =>
          cases h
          exact .inr ⟨_, _, rfl, rfl⟩
      | t | u | s => cases h
  | keyword k =>
      cases k with
      | parameter p =>
          cases p with
          | num32BitConstants | space =>
              cases h
              exact Item.refusesOnly_named _ _ (refusesFor_uint.map _)
          | visibility =>
              cases h
              exact Item.refusesOnly_named _ _ ((refusesFor_choice _ _).map _)
          | _ => cases h
      | _ => cases h
  | _ => cases h

/-- Items of a descriptor ask for registers of its class only. -/
theorem DescriptorItem.refusesOnly {type : DescriptorType} {item : Item DescriptorItem}
    (h : ofToken? dialect type t = some item) : item.RefusesOnly type.registerClass t := by
  cases t with
  | register r =>
      obtain ⟨c, n⟩ := r
      cases c with
      | b | t | u =>
          cases h
          exact .inr ⟨_, _, rfl, rfl⟩
      | s => cases h
  | keyword k =>
      cases k with
      | parameter p =>
          cases p with
          | flags =>
              cases h
              exact .inl (refusesFor_parameterFlags.map _).lenient
          | space =>
              cases h
              exact Item.refusesOnly_named _ _ (refusesFor_uint.map _)
          | visibility =>
              cases h
              exact Item.refusesOnly_named _ _ ((refusesFor_choice _ _).map _)
          | _ => cases h
      | _ => cases h
  | _ => cases h

/-- Items of a range ask for registers of its class only. -/
theorem RangeItem.refusesOnly {type : RangeType} {item : Item RangeItem}
    (h : ofToken? dialect type t = some item) : item.RefusesOnly type.registerClass t := by
  unfold ofToken? at h
  split at h <;> cases h
  · exact .inr ⟨_, _, rfl, rfl⟩
  · exact Item.refusesOnly_named _ _ ((refusesFor_uint.map _).orKeyword _ _ |>.map _)
  · exact Item.refusesOnly_named _ _ (refusesFor_uint.map _)
  · exact .inl (refusesFor_parameterFlags.map _).lenient
  · exact Item.refusesOnly_named _ _ ((refusesFor_uint.map _).orKeyword _ _ |>.map _)

/-- No parameter of a static sampler has a register for its value. -/
theorem SamplerItem.refusesFor_ofParameter? {p : Parameter} {value : Reader SamplerItem}
    (h : ofParameter? p = some value) : value.RefusesFor Reason.OfValue := by
  unfold ofParameter? at h
  cases p with
  | filter | addressU | addressV | addressW | comparisonFunc | borderColor | visibility =>
      cases h
      exact (refusesFor_choice _ _).map _
  | mipLodBias | minLod | maxLod =>
      cases h
      exact refusesFor_float.map _
  | maxAnisotropy | space =>
      cases h
      exact refusesFor_uint.map _
  | num32BitConstants | flags | numDescriptors | offset => cases h

/-- Items of a static sampler ask for sampler registers only. -/
theorem SamplerItem.refusesOnly {item : Item SamplerItem} (h : ofToken? t = some item) :
    item.RefusesOnly .s t := by
  unfold ofToken? at h
  split at h
  · next p =>
      obtain ⟨value, hvalue, rfl⟩ := Option.map_eq_some_iff.1 h
      exact Item.refusesOnly_named _ _ (refusesFor_ofParameter? hvalue)
  · cases h
    exact .inr ⟨_, _, rfl, rfl⟩
  · cases h

end

/-! ## What stands before -/

/-- The tokens are none, or some of a kind and a comma. -/
inductive Grammar.BehindComma (P : List Token → Prop) : List Token → Prop
  | start : BehindComma P []
  | comma {ts : List Token} : P ts → BehindComma P (ts ++ [.comma])

/-- What stands before a comma may be of a wider kind. -/
theorem Grammar.BehindComma.mono {P P' : List Token → Prop} {ts : List Token}
    (h : BehindComma P ts) (hP : ∀ ts, P ts → P' ts) : BehindComma P' ts := by
  cases h with
  | start => exact .start
  | comma hts => exact .comma (hP _ hts)

/-- More may stand before a list that ends in a comma, with a comma between them. -/
theorem Grammar.BehindComma.cons {P P' : List Token → Prop} {ts ts' : List Token}
    (h : BehindComma P' ts') (hts : P ts) (hcons : ∀ ts', P' ts' → P (ts ++ .comma :: ts')) :
    BehindComma P (ts ++ .comma :: ts') := by
  cases h with
  | start => exact .comma hts
  | @comma ts' hts' =>
      rw [← List.cons_append, ← List.append_assoc]
      exact .comma (hcons ts' hts')

namespace Reader

section
variable {item? : Token → Option (Item α)} {rule : Rule α} {slot? : α → Option Slot}
  {filled : List Slot} {ls rest : List Lexeme} {e : ParseError}

/-- If a list of items refuses a register, then one of its items does, behind items that have been
read. -/
theorem ItemsAccept.exists_item_fails (h : ItemsAccept item? rule slot?)
    (hrun : runItems item? stop filled ls = (.error e, rest))
    (hclass : e.reason.IsRegisterClass) :
    ∃ front l back item, ls = front ++ l :: back ∧
      BehindComma (fun ts => ∃ as, CommaList rule ts as ∧ Room slot? filled as)
        (front.map Lexeme.token) ∧
      item? l.token = some item ∧ item.read.Fails stop (l :: back) e := by
  fun_induction runItems item? stop filled ls with
  | case1 | case2 | case4 | case7 =>
      cases hrun
      exact hclass.elim
  | case3 filled ls head' item hitem hfilled e' rest' hread =>
      cases hrun
      cases ls with
      | nil => cases h.eof.symm.trans hitem
      | cons l ls => exact ⟨[], l, ls, item, rfl, .start, hitem, rest, hread⟩
  | case5 => cases hrun
  | case6 filled ls head' item hitem hfilled a separator rest' hread hcomma answer rest'' hrec =>
      rename_i ih
      obtain ⟨hanswer, rfl⟩ := Prod.mk.inj hrun
      cases answer with
      | ok answer => cases hanswer
      | error e' =>
          cases hanswer
          obtain ⟨front, rfl, hfront, hitemSlot, hslot⟩ :=
            h.of_read hitem hfilled hread (.inl hcomma)
          obtain ⟨front', l, back, item', rfl, hbehind, hitem', hfails⟩ := ih hrec
          refine ⟨front ++ separator :: front', l, back, item', by simp, ?_, hitem', hfails⟩
          rw [List.map_append, List.map_cons, hcomma]
          refine hbehind.cons ⟨[a], .single hfront, room_cons.2 ⟨hslot, room_nil⟩⟩ ?_
          rintro ts' ⟨as, hlist, hroom⟩
          exact ⟨a :: as, .cons hfront hlist, room_cons.2 ⟨hslot, hitemSlot ▸ hroom⟩⟩

/-- If a construct refuses a register, then one of its items does. -/
theorem ItemsAccept.exists_of_construct_fails (h : ItemsAccept item? rule slot?)
    {ofItems : List α → Except RequiredParameter β} {first : Lexeme}
    (hfails : (construct item? ofItems).Fails stop (first :: ls) e)
    (hclass : e.reason.IsRegisterClass) :
    ∃ paren front l back item, ls = paren :: (front ++ l :: back) ∧ paren.token = .leftParen ∧
      BehindComma (fun ts => ∃ slots, SlotList rule slot? ts slots) (front.map Lexeme.token) ∧
      item? l.token = some item ∧ item.read.Fails stop (l :: back) e := by
  obtain ⟨rest, hrun⟩ := hfails
  rw [run_construct, run_inParens] at hrun
  split at hrun
  · next hparen =>
      obtain ⟨paren, ls, rfl, hparen⟩ := exists_cons_of_head hparen (by decide)
      rw [List.tail_cons] at hrun
      cases hitems : runItems item? stop [] ls with
      | mk answer rest' =>
          rw [hitems] at hrun
          cases answer with
          | error e' =>
              cases hrun
              obtain ⟨front, l, back, item, rfl, hbehind, hitem, hfails⟩ :=
                h.exists_item_fails hitems hclass
              refine ⟨paren, front, l, back, item, rfl, hparen, hbehind.mono ?_, hitem, hfails⟩
              rintro ts ⟨as, hlist, hroom⟩
              exact ⟨_, as, hlist, rfl, room_empty_iff.1 hroom⟩
          | ok answer =>
              dsimp only [goOn, afterItems] at hrun
              split at hrun
              · cases hrun
              · cases hrun
                exact hclass.elim
  · cases hrun
    exact hclass.elim

end

end Reader

/-! ## Constructs -/

namespace ConstructKind

/-- An item of a construct can come behind these tokens, which stand in its parentheses: they are
none, or items that may stand together, and a comma. -/
def BeforeItem (dialect : Dialect) (k : ConstructKind) : List Token → Prop :=
  BehindComma fun ts => ∃ slots, k.Listed dialect ts slots

/-- A construct refuses registers of a class because it should be another one. The registers of
samplers are no items of descriptors. -/
def Refuses : ConstructKind → RegisterClass → RegisterClass → Prop
  | descriptor type, found, expected => expected = type.registerClass ∧ found ≠ expected ∧ found ≠ .s
  | range type, found, expected => expected = type.registerClass ∧ found ≠ expected
  | _, _, _ => False

/-- No construct refuses the class that it asks for. -/
theorem Refuses.ne {k : ConstructKind} {found expected : RegisterClass}
    (h : k.Refuses found expected) : found ≠ expected := by
  cases k with
  | descriptor type => exact h.2.1
  | range type => exact h.2
  | constants | table | staticSampler => exact h.elim

/-- Behind its opening word, a construct refuses a register where an item of it can come. -/
def RefusesRegister (dialect : Dialect) (k : ConstructKind) (ls : List Lexeme) (e : ParseError) :
    Prop :=
  ∃ paren front l back r c, ls = paren :: (front ++ l :: back) ∧ paren.token = .leftParen ∧
    k.BeforeItem dialect (front.map Lexeme.token) ∧ l.token = .register r ∧
    k.Refuses r.registerClass c ∧ e = .atLexeme (.incorrectRegisterClass l.text c) l

variable {k : ConstructKind} {first : Lexeme} {ls : List Lexeme} {e : ParseError}

/-- If the items of a construct refuse registers only for one class, so does the construct. -/
theorem ReadBy.refusesRegister {item? : Token → Option (Item α)} {rule : Rule α}
    {slot? : α → Option Slot} {ofItems : List α → Except RequiredParameter β} {c : RegisterClass}
    (h : k.ReadBy item? rule slot? ofItems) (hlisted : k.Listed dialect = SlotList rule slot?)
    (honly : ∀ t item, item? t = some item → item.RefusesOnly c t)
    (hrefuses : ∀ r item, item? (.register r) = some item → r.registerClass ≠ c →
      k.Refuses r.registerClass c)
    (hfails : (construct item? ofItems).Fails stop (first :: ls) e)
    (hclass : e.reason.IsRegisterClass) : k.RefusesRegister dialect ls e := by
  obtain ⟨paren, front, l, back, item, rfl, hparen, hbehind, hitem, hfails⟩ :=
    h.items.exists_of_construct_fails hfails hclass
  obtain ⟨r, hl, hr, rfl⟩ := (honly _ _ hitem).of_fails hfails hclass
  rw [← hlisted] at hbehind
  exact ⟨paren, front, l, back, r, c, rfl, hparen, hbehind, hl, hrefuses r item (hl ▸ hitem) hr,
    rfl⟩

/-- Root constants that fail for a class have refused a register. -/
theorem refusesRegister_constants (hfails : rootConstants.Fails stop (first :: ls) e)
    (hclass : e.reason.IsRegisterClass) : constants.RefusesRegister dialect ls e := by
  refine readBy_constants.refusesRegister rfl (fun t item => ConstantsItem.refusesOnly)
    (fun r item hitem hr => ?_) hfails hclass
  obtain ⟨c, n⟩ := r
  cases c <;> first | exact absurd rfl hr | cases hitem

theorem refusesRegister_descriptor {type : DescriptorType}
    (hfails : (rootDescriptor dialect type).Fails stop (first :: ls) e)
    (hclass : e.reason.IsRegisterClass) : (descriptor type).RefusesRegister dialect ls e := by
  refine (readBy_descriptor type).refusesRegister rfl (fun t item => DescriptorItem.refusesOnly)
    (fun r item hitem hr => ⟨rfl, hr, ?_⟩) hfails hclass
  obtain ⟨c, n⟩ := r
  rintro rfl
  cases hitem

theorem refusesRegister_range {type : RangeType}
    (hfails : (descriptorRange dialect type).Fails stop (first :: ls) e)
    (hclass : e.reason.IsRegisterClass) : (range type).RefusesRegister dialect ls e :=
  (readBy_range type).refusesRegister rfl (fun _ _ => RangeItem.refusesOnly)
    (fun _ _ _ hr => ⟨rfl, hr⟩) hfails hclass

theorem refusesRegister_staticSampler (hfails : Reader.staticSampler.Fails stop (first :: ls) e)
    (hclass : e.reason.IsRegisterClass) : staticSampler.RefusesRegister dialect ls e := by
  refine readBy_staticSampler.refusesRegister rfl (fun t item => SamplerItem.refusesOnly)
    (fun r item hitem hr => ?_) hfails hclass
  obtain ⟨c, n⟩ := r
  cases c <;> first | exact absurd rfl hr | cases hitem

/-- If a table refuses a register, then one of its ranges does. -/
theorem exists_range_refusesRegister (hfails : (descriptorTable dialect).Fails stop (first :: ls) e)
    (hclass : e.reason.IsRegisterClass) :
    ∃ paren front word back type, ls = paren :: (front ++ word :: back) ∧
      paren.token = .leftParen ∧ BeforeTableItem dialect (front.map Lexeme.token) ∧
      word.token = .keyword (.opening (RangeType.opening type)) ∧
      (range type).RefusesRegister dialect back e := by
  obtain ⟨paren, front, word, back, item, rfl, hparen, hbehind, hitem, hfails⟩ :=
    TableItem.itemsAccept.exists_of_construct_fails hfails hclass
  have hbefore : BeforeTableItem dialect (front.map Lexeme.token) := by
    generalize front.map Lexeme.token = ts at hbehind
    cases hbehind with
    | start => exact .start
    | comma hlist =>
        obtain ⟨slots, hlist⟩ := hlist
        exact .comma hlist
  have hrange (type : RangeType) (hword : word.token = .keyword (.opening type.opening))
      (hfails : (TableItem.rangeItem dialect type).read.Fails stop (word :: back) e) :
      ∃ paren' front' word' back' type, paren :: (front ++ word :: back) =
          paren' :: (front' ++ word' :: back') ∧
        paren'.token = .leftParen ∧ BeforeTableItem dialect (front'.map Lexeme.token) ∧
        word'.token = .keyword (.opening (RangeType.opening type)) ∧
        (range type).RefusesRegister dialect back' e := by
    obtain ⟨rest, hrun⟩ := hfails
    exact ⟨paren, front, word, back, type, rfl, hparen, hbefore, hword,
      refusesRegister_range ⟨rest, run_map_eq_error_iff.1 hrun⟩ hclass⟩
  unfold TableItem.ofToken? at hitem
  split at hitem <;> cases hitem
  · exact hrange .cbv ‹_› hfails
  · exact hrange .srv ‹_› hfails
  · exact hrange .uav ‹_› hfails
  · exact hrange .sampler ‹_› hfails
  · refine absurd hclass (RefusesFor.lenient ?_ _ _ _ hfails)
    exact ((refusesFor_choice _ _).map _).assigned fun _ h => h

end ConstructKind

/-! ## Declarations -/

/-- A construct that can come where it stands refuses a register. -/
def ParseError.RefusesRegister (dialect : Dialect) (ls : List Lexeme) (e : ParseError) : Prop :=
  ∃ before word back k, ls = before ++ word :: back ∧
    ConstructKind.Before dialect k (before.map Lexeme.token) ∧
    word.token = .keyword (.opening k.opening) ∧ k.RefusesRegister dialect back e

section
variable {first : Lexeme} {before ls : List Lexeme} {e : ParseError}

/-- Where a list of declarations ends in a comma, a declaration can come. -/
theorem Grammar.BeforeDeclaration.of_behindComma {ts : List Token}
    (h : BehindComma (fun ts => ∃ ds, CommaList (Declaration.Written dialect) ts ds ∧
      FlagsRoom false ds) ts) : BeforeDeclaration dialect ts := by
  cases h with
  | start => exact .start
  | comma hlist =>
      obtain ⟨ds, hds, hroom⟩ := hlist
      exact .comma hds hroom

/-- If a declaration refuses a register, then it is a construct that does, or a range in it. -/
theorem Declaration.refusesRegister_of_fails {reader : Reader Declaration}
    (hbefore : BeforeDeclaration dialect (before.map Lexeme.token))
    (hreader : ofToken? dialect first.token = some reader)
    (hfails : reader.Fails stop (first :: ls) e) (hclass : e.reason.IsRegisterClass) :
    e.RefusesRegister dialect (before ++ first :: ls) := by
  have hconstruct {k : ConstructKind} (hk : ∀ type, k ≠ .range type)
      (hfirst : first.token = .keyword (.opening k.opening))
      (hrefuses : k.RefusesRegister dialect ls e) :
      e.RefusesRegister dialect (before ++ first :: ls) :=
    ⟨before, first, ls, k, rfl, .declaration hk hbefore, hfirst, hrefuses⟩
  have hmapped {α : Type} {r : Reader α} {f : α → Declaration}
      (hfails : (f <$> r).Fails stop (first :: ls) e) : r.Fails stop (first :: ls) e := by
    obtain ⟨rest, hrun⟩ := hfails
    exact ⟨rest, run_map_eq_error_iff.1 hrun⟩
  unfold ofToken? at hreader
  split at hreader <;> cases hreader
  · exact absurd hclass ((refusesFor_rootFlags.map _).lenient _ _ _ hfails)
  · exact hconstruct (k := .constants) (by simp) ‹_›
      (ConstructKind.refusesRegister_constants (hmapped hfails) hclass)
  · exact hconstruct (k := .descriptor .cbv) (by simp) ‹_›
      (ConstructKind.refusesRegister_descriptor (hmapped hfails) hclass)
  · exact hconstruct (k := .descriptor .srv) (by simp) ‹_›
      (ConstructKind.refusesRegister_descriptor (hmapped hfails) hclass)
  · exact hconstruct (k := .descriptor .uav) (by simp) ‹_›
      (ConstructKind.refusesRegister_descriptor (hmapped hfails) hclass)
  · next hfirst =>
      obtain ⟨paren, front, word, back, type, rfl, hparen, htable, hword, hrefuses⟩ :=
        ConstructKind.exists_range_refusesRegister (hmapped hfails) hclass
      refine ⟨before ++ first :: paren :: front, word, back, .range type, by simp, ?_, hword,
        hrefuses⟩
      rw [List.map_append, List.map_cons, List.map_cons, hfirst, hparen]
      exact .range hbefore htable
  · exact hconstruct (k := .staticSampler) (by simp) ‹_›
      (ConstructKind.refusesRegister_staticSampler (hmapped hfails) hclass)

/-- If a list of declarations refuses a register, then one of its declarations does, behind
declarations that have been read. -/
theorem exists_declaration_fails {flagsDeclared : Bool}
    (h : (readDeclarations dialect stop flagsDeclared ls).failure? = some e)
    (hclass : e.reason.IsRegisterClass) :
    ∃ front first back reader, ls = front ++ first :: back ∧
      BehindComma (fun ts => ∃ ds, CommaList (Declaration.Written dialect) ts ds ∧
        FlagsRoom flagsDeclared ds) (front.map Lexeme.token) ∧
      Declaration.ofToken? dialect first.token = some reader ∧
      reader.Fails stop (first :: back) e := by
  fun_induction readDeclarations dialect stop flagsDeclared ls with
  | case1 | case5 => cases h
  | case2 | case3 | case7 =>
      cases h
      exact hclass.elim
  | case4 flagsDeclared first ls _ reader hreader e' rest hrun =>
      cases h
      exact ⟨[], first, ls, reader, rfl, .start, hreader, rest, hrun⟩
  | case6 flagsDeclared first ls hfirst reader hreader d separator rest hrun hcomma reading ih =>
      obtain ⟨front, hfront, hd, hflags⟩ := written_of_run hfirst hreader hrun
      obtain ⟨front', first', back, reader', rfl, hbehind, hreader', hfails⟩ := ih h
      refine ⟨front ++ separator :: front', first', back, reader', ?_, ?_, hreader', hfails⟩
      · rw [hfront, List.append_assoc, List.cons_append]
      · rw [List.map_append, List.map_cons, hcomma]
        refine hbehind.cons ⟨[d], .single hd, flagsRoom_cons.2 ⟨hflags, flagsRoom_nil _⟩⟩ ?_
        rintro ts' ⟨ds, hds, hroom⟩
        exact ⟨d :: ds, .cons hd hds, flagsRoom_cons.2 ⟨hflags, hroom⟩⟩

/-- A register is refused only where an item of a descriptor or of a range can come. -/
theorem refusesRegister_of_readDeclarations
    (h : (readDeclarations dialect stop false ls).failure? = some e)
    (hclass : e.reason.IsRegisterClass) : e.RefusesRegister dialect ls := by
  obtain ⟨front, first, back, reader, rfl, hbehind, hreader, hfails⟩ :=
    exists_declaration_fails h hclass
  exact Declaration.refusesRegister_of_fails (.of_behindComma hbehind) hreader hfails hclass

end

end RootSignature
