import RootSignature.Proofs.Grammar.Composition
import RootSignature.Proofs.Token.Letters

/-!
# Parameters given again and parameters left out

Reading a list of items gets through all that is well written and comes to the item behind the next
comma with the slots of the others filled (`ItemsAccept.runItems_append`). The first token of this
item decides: if its slot is filled it is refused at once, before anything behind its first token is
looked at. What a construct can not do without is asked for at its closing parenthesis only.

This is the same for every construct (`ConstructKind`). What differs is which tokens start an item
of which slot (`ConstructKind.startedSlot?`) and what is needed (`ConstructKind.required`). The
message names the slot (`Slot.IsCalled`): a register by what it is for, and a parameter by the word
that is there.
`parse_duplicate_or_missing` says it of whole sources, for a construct behind declarations, or for a
range behind other items of its table.
-/

namespace RootSignature

open Grammar

namespace Reader

variable {α β : Type}

/-! ## Items -/

/-- Reading fails with an error. -/
def Fails (r : Reader α) (stop : Location) (ls : List Lexeme) (e : ParseError) : Prop :=
  ∃ rest, r.run stop ls = (.error e, rest)

/-- What is made of a result does not change a failure. -/
theorem Fails.map {r : Reader α} {stop : Location} {ls : List Lexeme} {e : ParseError}
    (h : r.Fails stop ls e) (f : α → β) : (f <$> r).Fails stop ls e := by
  obtain ⟨rest, hrun⟩ := h
  exact ⟨rest, run_map_eq_error_iff.2 hrun⟩

/-- Items have room in an empty list if no two of them fill one slot. -/
theorem room_empty_iff {slot? : α → Option Slot} {as : List α} :
    Room slot? [] as ↔ (as.filterMap slot?).Nodup := by
  simp [Room]

section
variable {item? : Token → Option (Item α)} {rule : Rule α} {slot? : α → Option Slot}
  {stop : Location} {filled : List Slot} {ls rest : List Lexeme} {e : ParseError}

/-- The slots of a list are filled one after the other. -/
theorem reverse_filterMap_cons (a : α) (as : List α) :
    ((a :: as).filterMap slot?).reverse ++ filled =
      (as.filterMap slot?).reverse ++ ((slot? a).toList ++ filled) := by
  cases hs : slot? a <;> simp [hs]

/-- Reading gets through a list of items and goes on behind a comma, where their slots are filled.
An error there is an error of the whole. -/
theorem ItemsAccept.runItems_append (h : ItemsAccept item? rule slot?) {ts : List Token}
    {as : List α} (hlist : CommaList rule ts as) {front : List Lexeme}
    (hts : front.map Lexeme.token = ts) (hroom : Room slot? filled as) {comma : Lexeme}
    (hcomma : comma.token = .comma)
    (hrest : runItems item? stop ((as.filterMap slot?).reverse ++ filled) ls = (.error e, rest)) :
    runItems item? stop filled (front ++ comma :: ls) = (.error e, rest) := by
  induction hlist generalizing front filled with
  | @single ts a ha =>
      subst hts
      obtain ⟨item, hitem, hslot, hread⟩ := h.read_of stop (comma :: ls) ha (.inl hcomma)
      rw [room_cons, ← hslot] at hroom
      rw [reverse_filterMap_cons, ← hslot, List.filterMap_nil, List.reverse_nil,
        List.nil_append] at hrest
      rw [runItems_more hitem hroom.1 hread hcomma, hrest]
      rfl
  | @cons ts ts' a as ha _ ih =>
      obtain ⟨front₁, front₂, rfl, rfl, hts'⟩ := List.map_eq_append_iff.1 hts
      obtain ⟨comma', front, rfl, hcomma', hfront⟩ := List.map_eq_cons_iff.1 hts'
      obtain ⟨item, hitem, hslot, hread⟩ :=
        h.read_of stop (comma' :: (front ++ comma :: ls)) ha (.inl hcomma')
      rw [room_cons, ← hslot] at hroom
      rw [reverse_filterMap_cons, ← hslot] at hrest
      rw [List.append_assoc, List.cons_append, runItems_more hitem hroom.1 hread hcomma',
        ih hfront hroom.2 hrest]
      rfl

/-- What starts an item of a filled slot is refused, whatever stands behind it. -/
theorem runItems_duplicate {l : Lexeme} {item : Item α} {s : Slot}
    (hitem : item? l.token = some item) (hslot : item.slot? = some s) (hs : s ∈ filled) :
    runItems item? stop filled (l :: ls) =
      (.error (.atLexeme (.duplicateParameter s.label) l), l :: ls) := by
  rw [runItems_eq, head_cons, hitem]
  dsimp only
  rw [hslot, Option.filter_some, if_pos (decide_eq_true hs)]

/-- An error of a reader of an item that may be given is an error of the items. -/
theorem runItems_fails {item : Item α} (hitem : item? (head stop ls).token = some item)
    (hslot : ∀ s ∈ item.slot?, s ∉ filled) (hfails : item.read.Fails stop ls e) :
    ∃ rest, runItems item? stop filled ls = (.error e, rest) := by
  obtain ⟨rest, hrun⟩ := hfails
  refine ⟨rest, ?_⟩
  rw [runItems_eq_goOn hitem (filter_slot?_eq_none hslot), hrun]
  rfl

/-! ## Constructs -/

variable {ofItems : List α → Except RequiredParameter β} {first paren : Lexeme}

/-- An error of the items is an error of the construct. -/
theorem construct_fails (hparen : paren.token = .leftParen)
    (hitems : ∃ rest, runItems item? stop [] ls = (.error e, rest)) :
    (construct item? ofItems).Fails stop (first :: paren :: ls) e := by
  obtain ⟨rest, hrun⟩ := hitems
  refine ⟨rest, ?_⟩
  rw [run_construct, run_inParens, head_cons, if_pos hparen, List.tail_cons, hrun]
  rfl

end

/-! ## What items lack -/

section
variable {slot? : α → Option Slot} {s : Slot} {as : List α} {γ : Type} {pick : α → Option γ}
  {p p' : RequiredParameter} {make : γ → Except RequiredParameter β}

/-- What is needed of a slot that is not filled is asked for. -/
theorem require_of_slot_notMem (hs : s ∉ as.filterMap slot?)
    (hpick : ∀ a, (pick a).isSome → slot? a = some s) :
    (p.require (as.findSome? pick) >>= make) = .error p := by
  have hnone : as.findSome? pick = none := by
    refine List.findSome?_eq_none_iff.2 fun a ha => ?_
    by_contra hsome
    have hslot := hpick a (Option.isSome_iff_ne_none.2 hsome)
    exact hs (List.mem_filterMap.2 ⟨a, ha, hslot⟩)
  rw [hnone]
  rfl

/-- What is needed of a filled slot is there, so what is asked for is something else. -/
theorem require_of_slot_mem (hs : s ∈ as.filterMap slot?)
    (hpick : ∀ a, slot? a = some s → (pick a).isSome) (hmake : ∀ c, make c = .error p') :
    (p.require (as.findSome? pick) >>= make) = .error p' := by
  obtain ⟨a, ha, hslot⟩ := List.mem_filterMap.1 hs
  cases hfound : as.findSome? pick with
  | none =>
      rw [List.findSome?_eq_none_iff] at hfound
      simpa [hfound a ha] using hpick a hslot
  | some c => exact hmake c

end

end Reader

open Reader

/-! ## Kinds of constructs -/

/-- What is written with a list of items in parentheses. -/
inductive ConstructKind where
  | constants
  | descriptor (type : DescriptorType)
  | range (type : RangeType)
  | table
  | staticSampler

/-- Items of a rule with commas between them fill slots, none of them twice. -/
def Grammar.SlotList {α : Type} (rule : Rule α) (slot? : α → Option Slot) (ts : List Token)
    (slots : List Slot) : Prop :=
  ∃ as, CommaList rule ts as ∧ as.filterMap slot? = slots ∧ slots.Nodup

namespace ConstructKind

/-- The word that opens a construct. -/
def opening : ConstructKind → Opening
  | constants => .rootConstants
  | descriptor type => type.opening
  | range type => type.opening
  | table => .descriptorTable
  | staticSampler => .staticSampler

/-- The parameters of a construct that are given by their names. -/
def parameters : ConstructKind → List Parameter
  | constants => [.num32BitConstants, .space, .visibility]
  | descriptor _ => [.flags, .space, .visibility]
  | range _ => [.numDescriptors, .space, .flags, .offset]
  | table => [.visibility]
  | staticSampler => [.filter, .addressU, .addressV, .addressW, .mipLodBias, .maxAnisotropy,
      .comparisonFunc, .borderColor, .minLod, .maxLod, .space, .visibility]

/-- The slot of a register in a construct. The classes that a descriptor can have are one slot
there, and so are all classes in a range, whatever its type is. -/
def registerSlot? : ConstructKind → RegisterClass → Option Slot
  | constants, .b => some .constantBufferRegister
  | descriptor _, .b | descriptor _, .t | descriptor _, .u => some .shaderRegister
  | range _, _ => some .shaderRegister
  | staticSampler, .s => some .samplerRegister
  | _, _ => none

/-- The slot of the item that a token starts in a construct. -/
def startedSlot? (k : ConstructKind) : Token → Option Slot
  | .keyword (.parameter p) => if p ∈ k.parameters then some (.parameter p) else none
  | .register r => k.registerSlot? r.registerClass
  | _ => none

/-- What a construct can not do without, in the order in which it is asked for. -/
def required : ConstructKind → List (Slot × RequiredParameter)
  | constants => [(.parameter .num32BitConstants, .num32BitConstants),
      (.constantBufferRegister, .constantBufferRegister)]
  | descriptor _ | range _ => [(.shaderRegister, .shaderRegister)]
  | table => []
  | staticSampler => [(.samplerRegister, .samplerRegister)]

/-- The first of the needed parameters whose slot is not filled. -/
def missing? (k : ConstructKind) (slots : List Slot) : Option RequiredParameter :=
  (k.required.find? (·.1 ∉ slots)).map (·.2)

/-- A list of one or more items of a construct, which fill different slots. -/
def Listed (dialect : Dialect) : ConstructKind → List Token → List Slot → Prop
  | constants => SlotList ConstantsItem.Written ConstantsItem.slot?
  | descriptor type => SlotList (DescriptorItem.Written dialect type) DescriptorItem.slot?
  | range type => SlotList (RangeItem.Written dialect type) RangeItem.slot?
  | table => SlotList (TableItem.Written dialect) TableItem.slot?
  | staticSampler => SlotList SamplerItem.Written SamplerItem.slot?

/-- Reading a construct fails with an error. -/
def Fails (dialect : Dialect) : ConstructKind → Location → List Lexeme → ParseError → Prop
  | constants => rootConstants.Fails
  | descriptor type => (rootDescriptor dialect type).Fails
  | range type => (descriptorRange dialect type).Fails
  | table => (descriptorTable dialect).Fails
  | staticSampler => Reader.staticSampler.Fails

variable {dialect : Dialect} {k : ConstructKind} {slots : List Slot} {p : RequiredParameter}

/-- A construct that needs one parameter misses it if its slot is not filled. -/
theorem missing?_of_required {s : Slot} {p' : RequiredParameter} (h : k.required = [(s, p')]) :
    k.missing? slots = some p ↔ s ∉ slots ∧ p' = p := by
  rw [missing?, h, List.find?_singleton]
  split <;> simp_all

/-- Constants miss their number before they miss their register. -/
theorem missing?_constants : constants.missing? slots = some p ↔
    .parameter .num32BitConstants ∉ slots ∧ .num32BitConstants = p ∨
      .parameter .num32BitConstants ∈ slots ∧ .constantBufferRegister ∉ slots ∧
        .constantBufferRegister = p := by
  by_cases hcount : .parameter .num32BitConstants ∈ slots <;>
    by_cases hregister : .constantBufferRegister ∈ slots <;>
      simp [missing?, required, hcount, hregister]

/-! ### How constructs are read -/

/-- The items of a construct are read by their first tokens as the construct has them, and what is
made of them notices first what the construct misses first. -/
structure ReadBy {α β : Type} (k : ConstructKind) (item? : Token → Option (Item α))
    (rule : Rule α) (slot? : α → Option Slot) (ofItems : List α → Except RequiredParameter β) :
    Prop where
  items : ItemsAccept item? rule slot?
  named : ∀ p ∈ k.parameters,
    ∃ item, item? (.keyword (.parameter p)) = some item ∧ item.slot? = some (.parameter p)
  register : ∀ r s, k.registerSlot? r.registerClass = some s →
    ∃ item, item? (.register r) = some item ∧ item.slot? = some s
  missing : ∀ as p, k.missing? (as.filterMap slot?) = some p → ofItems as = .error p

/-- Root constants are read item by item. -/
theorem readBy_constants : constants.ReadBy ConstantsItem.ofToken? ConstantsItem.Written
    ConstantsItem.slot? ConstantsItem.ofItems where
  items := ConstantsItem.itemsAccept
  named p hp := by
    simp only [parameters, List.mem_cons, List.not_mem_nil, or_false] at hp
    rcases hp with rfl | rfl | rfl <;> exact ⟨_, rfl, rfl⟩
  register r s h := by
    obtain ⟨c, n⟩ := r
    cases c <;> cases h
    exact ⟨_, rfl, rfl⟩
  missing as p h := by
    -- The number is asked for first, so it is there if the register is asked for.
    rcases missing?_constants.1 h with ⟨hcount, rfl⟩ | ⟨hcount, hregister, rfl⟩
    · refine require_of_slot_notMem hcount fun item hitem => ?_
      cases item <;> simp_all [ConstantsItem.slot?]
    · refine require_of_slot_mem hcount (fun item hitem => ?_) fun count => ?_
      · cases item <;> simp_all [ConstantsItem.slot?]
      · refine require_of_slot_notMem hregister fun item hitem => ?_
        cases item <;> simp_all [ConstantsItem.slot?]

theorem readBy_descriptor (type : DescriptorType) :
    (descriptor type).ReadBy (DescriptorItem.ofToken? dialect type)
      (DescriptorItem.Written dialect type) DescriptorItem.slot?
      (DescriptorItem.ofItems type) where
  items := DescriptorItem.itemsAccept
  named p hp := by
    simp only [parameters, List.mem_cons, List.not_mem_nil, or_false] at hp
    rcases hp with rfl | rfl | rfl <;> exact ⟨_, rfl, rfl⟩
  register r s h := by
    obtain ⟨c, n⟩ := r
    cases c <;> cases h <;> exact ⟨_, rfl, rfl⟩
  missing as p h := by
    obtain ⟨hregister, rfl⟩ := (missing?_of_required rfl).1 h
    refine require_of_slot_notMem hregister fun item hitem => ?_
    cases item <;> simp_all [DescriptorItem.slot?]

theorem readBy_range (type : RangeType) :
    (range type).ReadBy (RangeItem.ofToken? dialect type) (RangeItem.Written dialect type)
      RangeItem.slot? (RangeItem.ofItems type) where
  items := RangeItem.itemsAccept
  named p hp := by
    simp only [parameters, List.mem_cons, List.not_mem_nil, or_false] at hp
    rcases hp with rfl | rfl | rfl | rfl <;> exact ⟨_, rfl, rfl⟩
  register r s h := by
    cases h
    exact ⟨_, rfl, rfl⟩
  missing as p h := by
    obtain ⟨hregister, rfl⟩ := (missing?_of_required rfl).1 h
    refine require_of_slot_notMem hregister fun item hitem => ?_
    cases item <;> simp_all [RangeItem.slot?]

theorem readBy_table (dialect : Dialect) : table.ReadBy (TableItem.ofToken? dialect)
    (TableItem.Written dialect) TableItem.slot? TableItem.ofItems where
  items := TableItem.itemsAccept
  named p hp := by
    obtain rfl := List.mem_singleton.1 hp
    exact ⟨_, rfl, rfl⟩
  register r s h := by cases h
  missing as p h := by cases h

theorem readBy_staticSampler : staticSampler.ReadBy SamplerItem.ofToken? SamplerItem.Written
    SamplerItem.slot? SamplerItem.ofItems where
  items := SamplerItem.itemsAccept
  named p hp := by
    simp only [parameters, List.mem_cons, List.not_mem_nil, or_false] at hp
    rcases hp with rfl | rfl | rfl | rfl | rfl | rfl | rfl | rfl | rfl | rfl | rfl | rfl <;>
      exact ⟨_, rfl, rfl⟩
  register r s h := by
    obtain ⟨c, n⟩ := r
    cases c <;> cases h
    exact ⟨_, rfl, rfl⟩
  missing as p h := by
    obtain ⟨hregister, rfl⟩ := (missing?_of_required rfl).1 h
    refine require_of_slot_notMem hregister fun item hitem => ?_
    cases item <;> simp_all [SamplerItem.slot?]

/-- Every construct is read item by item. -/
theorem exists_readBy (dialect : Dialect) (k : ConstructKind) :
    ∃ (α β : Type) (item? : Token → Option (Item α)) (rule : Rule α) (slot? : α → Option Slot)
      (ofItems : List α → Except RequiredParameter β),
      k.ReadBy item? rule slot? ofItems ∧ k.Listed dialect = SlotList rule slot? ∧
        k.Fails dialect = (construct item? ofItems).Fails := by
  cases k with
  | constants => exact ⟨_, _, _, _, _, _, readBy_constants, rfl, rfl⟩
  | descriptor type => exact ⟨_, _, _, _, _, _, readBy_descriptor type, rfl, rfl⟩
  | range type => exact ⟨_, _, _, _, _, _, readBy_range type, rfl, rfl⟩
  | table => exact ⟨_, _, _, _, _, _, readBy_table dialect, rfl, rfl⟩
  | staticSampler => exact ⟨_, _, _, _, _, _, readBy_staticSampler, rfl, rfl⟩

/-- A token that starts an item of a slot is read as such an item. -/
theorem ReadBy.started {α β : Type} {item? : Token → Option (Item α)} {rule : Rule α}
    {slot? : α → Option Slot} {ofItems : List α → Except RequiredParameter β}
    (h : k.ReadBy item? rule slot? ofItems) {t : Token} {s : Slot}
    (hs : k.startedSlot? t = some s) : ∃ item, item? t = some item ∧ item.slot? = some s := by
  unfold startedSlot? at hs
  split at hs
  · next p =>
      split at hs
      · next hp =>
          cases hs
          exact h.named p hp
      · cases hs
  · next r => exact h.register r s hs
  · cases hs

/-! ### Failures of a construct -/

section
variable {stop : Location} {first paren : Lexeme} {front ls : List Lexeme}

/-- Behind a list of items and a comma, a token that starts an item of a filled slot is refused. -/
theorem fails_duplicate (hlist : k.Listed dialect (front.map Lexeme.token) slots)
    (hparen : paren.token = .leftParen) {comma : Lexeme} (hcomma : comma.token = .comma)
    {l : Lexeme} {s : Slot} (hstart : k.startedSlot? l.token = some s) (hs : s ∈ slots) :
    k.Fails dialect stop (first :: paren :: (front ++ comma :: l :: ls))
      (.atLexeme (.duplicateParameter s.label) l) := by
  obtain ⟨α, β, item?, rule, slot?, ofItems, h, hlisted, hreads⟩ := k.exists_readBy dialect
  rw [hlisted] at hlist
  rw [hreads]
  obtain ⟨as, hitems, rfl, hnodup⟩ := hlist
  obtain ⟨item, hitem, hslot⟩ := h.started hstart
  refine construct_fails hparen ⟨l :: ls, ?_⟩
  refine h.items.runItems_append hitems rfl (room_empty_iff.2 hnodup) hcomma ?_
  exact runItems_duplicate hitem hslot (by simpa using hs)

/-- Behind a list of items, the closing parenthesis is refused if a parameter is missing. -/
theorem fails_missing (hlist : k.Listed dialect (front.map Lexeme.token) slots)
    (hparen : paren.token = .leftParen) {close : Lexeme} (hclose : close.token = .rightParen)
    (hp : k.missing? slots = some p) :
    k.Fails dialect stop (first :: paren :: (front ++ close :: ls))
      (.atLexeme (.missingParameter p) close) := by
  obtain ⟨α, β, item?, rule, slot?, ofItems, h, hlisted, hreads⟩ := k.exists_readBy dialect
  rw [hlisted] at hlist
  rw [hreads]
  obtain ⟨as, hitems, rfl, hnodup⟩ := hlist
  refine ⟨ls, ?_⟩
  rw [run_construct, run_inParens, head_cons, if_pos hparen, List.tail_cons,
    h.items.runItems_of_commaList hclose hitems rfl (room_empty_iff.2 hnodup)]
  dsimp only [goOn, afterItems]
  rw [h.missing as p hp]

/-- No construct has an empty list of items. -/
theorem fails_empty (hparen : paren.token = .leftParen) {close : Lexeme}
    (hclose : close.token = .rightParen) :
    k.Fails dialect stop (first :: paren :: close :: ls)
      (.atLexeme (.unexpectedToken close.text) close) := by
  have hitems {α : Type} {item? : Token → Option (Item α)} (hnone : item? .rightParen = none) :
      ∃ rest, runItems item? stop [] (close :: ls) =
        (.error (.atLexeme (.unexpectedToken close.text) close), rest) := by
    refine ⟨close :: ls, ?_⟩
    rw [runItems_eq, head_cons, hclose, hnone]
  cases k <;> exact construct_fails hparen (hitems rfl)

end

end ConstructKind

/-! ## Where constructs stand -/

/-- A declaration can come behind these tokens: they are none, or declarations that may stand
together, and a comma. -/
inductive Grammar.BeforeDeclaration (dialect : Dialect) : List Token → Prop
  | start : BeforeDeclaration dialect []
  | comma {ts : List Token} {ds : List Declaration} :
      CommaList (Declaration.Written dialect) ts ds → FlagsRoom false ds →
      BeforeDeclaration dialect (ts ++ [.comma])

/-- An item of a table can come behind these tokens, which stand in its parentheses: they are none,
or items that may stand together, and a comma. -/
inductive Grammar.BeforeTableItem (dialect : Dialect) : List Token → Prop
  | start : BeforeTableItem dialect []
  | comma {ts : List Token} {slots : List Slot} :
      ConstructKind.table.Listed dialect ts slots → BeforeTableItem dialect (ts ++ [.comma])

namespace ConstructKind

/-- A construct can come behind these tokens: a range comes as an item of a table, and all others
come as declarations. -/
inductive Before (dialect : Dialect) : ConstructKind → List Token → Prop
  | declaration {k : ConstructKind} {ts : List Token} :
      (∀ type, k ≠ .range type) → BeforeDeclaration dialect ts → Before dialect k ts
  | range {type : RangeType} {ts ts' : List Token} :
      BeforeDeclaration dialect ts → BeforeTableItem dialect ts' →
      Before dialect (.range type)
        (ts ++ .keyword (.opening .descriptorTable) :: .leftParen :: ts')

variable {dialect : Dialect} {k : ConstructKind} {stop : Location} {first : Lexeme}
  {before ls : List Lexeme} {e : ParseError}

/-- All constructs but ranges are read as declarations. -/
theorem exists_declaration_reader (hk : ∀ type, k ≠ .range type) :
    ∃ reader, Declaration.ofToken? dialect (.keyword (.opening k.opening)) = some reader ∧
      k.opening ≠ .rootFlags ∧ ∀ ls, k.Fails dialect stop ls e → reader.Fails stop ls e := by
  cases k with
  | constants => exact ⟨_, rfl, by decide, fun _ h => h.map _⟩
  | descriptor type => cases type <;> exact ⟨_, rfl, by decide, fun _ h => h.map _⟩
  | range type => exact absurd rfl (hk type)
  | table => exact ⟨_, rfl, by decide, fun _ h => h.map _⟩
  | staticSampler => exact ⟨_, rfl, by decide, fun _ h => h.map _⟩

/-- A declaration that fails where one can come is the end of reading. -/
theorem readDeclarations_fails (hk : ∀ type, k ≠ .range type)
    (hbefore : BeforeDeclaration dialect (before.map Lexeme.token))
    (hfirst : first.token = .keyword (.opening k.opening))
    (hfails : k.Fails dialect stop (first :: ls) e) :
    (readDeclarations dialect stop false (before ++ first :: ls)).failure? = some e := by
  have hhere (flagsDeclared : Bool) :
      (readDeclarations dialect stop flagsDeclared (first :: ls)).failure? = some e := by
    obtain ⟨reader, hreader, hopening, hreads⟩ := exists_declaration_reader hk
    obtain ⟨rest, hrun⟩ := hreads _ hfails
    rw [readDeclarations_eq_afterOutcome (by simp [hfirst, hopening]) (hfirst ▸ hreader), hrun]
    rfl
  generalize hts : before.map Lexeme.token = ts at hbefore
  cases hbefore with
  | start =>
      obtain rfl := List.map_eq_nil_iff.1 hts
      exact hhere false
  | comma hds hroom =>
      obtain ⟨front, commas, rfl, hfront, hcommas⟩ := List.map_eq_append_iff.1 hts
      obtain ⟨comma, rfl, hcomma⟩ := List.map_eq_singleton_iff.1 hcommas
      rw [List.append_assoc, List.singleton_append, readDeclarations_append hds hfront hroom hcomma]
      exact hhere _

/-- A range that fails where an item can come is the end of reading its table. -/
theorem table_fails {type : RangeType} {word paren : Lexeme} (hparen : paren.token = .leftParen)
    (hbefore : BeforeTableItem dialect (before.map Lexeme.token))
    (hfirst : first.token = .keyword (.opening type.opening))
    (hfails : (range type).Fails dialect stop (first :: ls) e) :
    table.Fails dialect stop (word :: paren :: (before ++ first :: ls)) e := by
  have hhere (filled : List Slot) : ∃ rest,
      runItems (TableItem.ofToken? dialect) stop filled (first :: ls) = (.error e, rest) := by
    have hitem : TableItem.ofToken? dialect (head stop (first :: ls)).token =
        some (TableItem.rangeItem dialect type) := by
      rw [head_cons, hfirst]
      cases type <;> rfl
    exact runItems_fails hitem (by simp [TableItem.rangeItem]) (Reader.Fails.map hfails _)
  generalize hts : before.map Lexeme.token = ts at hbefore
  cases hbefore with
  | start =>
      obtain rfl := List.map_eq_nil_iff.1 hts
      exact construct_fails hparen (hhere [])
  | comma hlist =>
      obtain ⟨as, hitems, rfl, hnodup⟩ := hlist
      obtain ⟨front, commas, rfl, hfront, hcommas⟩ := List.map_eq_append_iff.1 hts
      obtain ⟨comma, rfl, hcomma⟩ := List.map_eq_singleton_iff.1 hcommas
      obtain ⟨rest, hrun⟩ := hhere ((as.filterMap TableItem.slot?).reverse ++ [])
      rw [List.append_assoc, List.singleton_append]
      exact construct_fails hparen ⟨rest, TableItem.itemsAccept.runItems_append hitems hfront
        (room_empty_iff.2 hnodup) hcomma hrun⟩

/-- A construct that fails where it can come is the end of reading. -/
theorem failure?_of_fails (hbefore : k.Before dialect (before.map Lexeme.token))
    (hfirst : first.token = .keyword (.opening k.opening))
    (hfails : k.Fails dialect stop (first :: ls) e) :
    (readDeclarations dialect stop false (before ++ first :: ls)).failure? = some e := by
  generalize hts : before.map Lexeme.token = ts at hbefore
  cases hbefore with
  | declaration hk hbefore => exact readDeclarations_fails hk (hts ▸ hbefore) hfirst hfails
  | range hbefore htable =>
      obtain ⟨before, inTable, rfl, rfl, hinTable⟩ := List.map_eq_append_iff.1 hts
      obtain ⟨word, inTable, rfl, hword, hinTable⟩ := List.map_eq_cons_iff.1 hinTable
      obtain ⟨paren, inTable, rfl, hparen, rfl⟩ := List.map_eq_cons_iff.1 hinTable
      rw [List.append_assoc]
      have htableFails : table.Fails dialect stop (word :: paren :: (inTable ++ first :: ls)) e :=
        table_fails hparen htable hfirst hfails
      exact readDeclarations_fails (k := table) (by simp) hbefore hword htableFails

end ConstructKind

/-! ## Names of slots -/

/-- The name of a parameter in mixed case: each of its words but the first has a capital, and LOD,
which is an abbreviation, has capitals only. -/
def Parameter.camelCase (p : Parameter) : String :=
  let later (word : String) := if word = "lod" then word.toUpper else word.capitalize
  String.join (p.words.take 1 ++ (p.words.drop 1).map later)

/-- Messages write the names of parameters in mixed case. -/
theorem Parameter.label_eq (p : Parameter) : p.label = p.camelCase := by
  cases p <;> decide +kernel

/-- In small letters, the name of a parameter is its spelling. -/
theorem Parameter.map_toLower_label (p : Parameter) :
    p.label.toList.map Char.toLower = (Keyword.parameter p).spelling := by
  cases p <;> decide +kernel

/-- A slot goes by a name, where an item of it starts with a text. Registers are called by what they
are for, and a parameter has the text for its name, except for capitals. -/
inductive Slot.IsCalled (text : String) : Slot → String → Prop
  | constantBufferRegister : IsCalled text .constantBufferRegister "cbuffer register b#"
  | shaderRegister : IsCalled text .shaderRegister "shader register"
  | samplerRegister : IsCalled text .samplerRegister "sampler register s#"
  | parameter {p : Parameter} :
      p.camelCase.toList.map Char.toLower = text.toList.map Char.toLower →
      IsCalled text (.parameter p) p.camelCase

/-- A token that starts an item of a parameter is the name of this parameter. -/
theorem ConstructKind.token_of_startedSlot? {k : ConstructKind} {t : Token} {p : Parameter}
    (h : k.startedSlot? t = some (.parameter p)) : t = .keyword (.parameter p) := by
  unfold startedSlot? at h
  split at h
  · split at h <;> simp_all
  · next r =>
      obtain ⟨c, n⟩ := r
      cases k <;> cases c <;> simp [registerSlot?] at h
  · cases h

/-- Messages call the slot of an item by its name. -/
theorem ConstructKind.isCalled_label {k : ConstructKind} {base : Location} {offset : Nat}
    {cs : List Char} {l : Lexeme} (hl : l ∈ lexemesFrom base offset cs) {s : Slot}
    (hs : k.startedSlot? l.token = some s) : s.IsCalled l.text s.label := by
  cases s with
  | constantBufferRegister => exact .constantBufferRegister
  | shaderRegister => exact .shaderRegister
  | samplerRegister => exact .samplerRegister
  | parameter p =>
      have htext := map_toLower_text_of_keyword hl (token_of_startedSlot? hs)
      rw [← p.map_toLower_label, p.label_eq] at htext
      rw [Slot.label, p.label_eq]
      exact .parameter htext.symm

/-! ## Sources -/

/-- Let a construct be opened where it can come, and a list of its items be read, which are well
written and of different slots. If a token stands behind the next comma that starts an item of a
slot that has been filled, then it is refused as a duplicate by the name of the slot, whatever the
rest of the source is. If instead the list is closed and a needed parameter is missing, then it is
asked for at the closing parenthesis; of root constants, the number is asked for before the
register. A list has one item at least: nothing is asked for in empty parentheses, which are no
construct (`ConstructKind.fails_empty`). -/
theorem parse_duplicate_or_missing (source : String) (base : Location) (version : Version)
    (mode : BindingMode) (k : ConstructKind) (pre items : List Token) (slots : List Slot)
    (hpre : k.Before (mode.dialect version) pre)
    (hitems : k.Listed (mode.dialect version) items slots)
    (before : List Lexeme) (l : Lexeme) (rest : List Lexeme)
    (hsource : (TokenStream.ofSource source base).lexemes = before ++ l :: rest) :
    (∀ s ∈ slots, k.startedSlot? l.token = some s →
      before.map Lexeme.token =
        pre ++ .keyword (.opening k.opening) :: .leftParen :: (items ++ [.comma]) →
      ∃ name, s.IsCalled l.text name ∧
        parse source base version mode = .error (.atLexeme (.duplicateParameter name) l)) ∧
    (∀ p, k.missing? slots = some p → l.token = .rightParen →
      before.map Lexeme.token = pre ++ .keyword (.opening k.opening) :: .leftParen :: items →
      parse source base version mode = .error (.atLexeme (.missingParameter p) l)) := by
  simp only [parse_eq_error_iff, readSource_eq, hsource]
  refine ⟨fun s hs hstart hbefore => ⟨s.label, ?_, ?_⟩, fun p hp hclose hbefore => ?_⟩
  · have hl : l ∈ lexemesFrom base 0 (readableText source) := by
      show l ∈ (TokenStream.ofSource source base).lexemes
      simp [hsource]
    exact ConstructKind.isCalled_label hl hstart
  · obtain ⟨before, opened, rfl, rfl, hopened⟩ := List.map_eq_append_iff.1 hbefore
    obtain ⟨first, opened, rfl, hfirst, hopened⟩ := List.map_eq_cons_iff.1 hopened
    obtain ⟨paren, opened, rfl, hparen, hopened⟩ := List.map_eq_cons_iff.1 hopened
    obtain ⟨front, commas, rfl, rfl, hcommas⟩ := List.map_eq_append_iff.1 hopened
    obtain ⟨comma, rfl, hcomma⟩ := List.map_eq_singleton_iff.1 hcommas
    have hfails : k.Fails (mode.dialect version) (TokenStream.ofSource source base).stop
        (first :: paren :: (front ++ comma :: l :: rest)) _ :=
      ConstructKind.fails_duplicate hitems hparen hcomma hstart hs
    simpa using ConstructKind.failure?_of_fails hpre hfirst hfails
  · obtain ⟨before, opened, rfl, rfl, hopened⟩ := List.map_eq_append_iff.1 hbefore
    obtain ⟨first, opened, rfl, hfirst, hopened⟩ := List.map_eq_cons_iff.1 hopened
    obtain ⟨paren, front, rfl, hparen, rfl⟩ := List.map_eq_cons_iff.1 hopened
    have hfails : k.Fails (mode.dialect version) (TokenStream.ofSource source base).stop
        (first :: paren :: (front ++ l :: rest)) _ :=
      ConstructKind.fails_missing hitems hparen hclose hp
    simpa using ConstructKind.failure?_of_fails hpre hfirst hfails

/-- Parameters that are given again, with other capitals and with nothing behind them, a register
that is given again in a range, though its class is wrong and nothing behind it is written well, and
constants without number and register, which are asked for their number. -/
theorem parse_duplicate_or_missing_names :
    parse "RootConstants(space=1, SPACE" .first .v1_0 .localMode =
        .error ⟨.duplicateParameter "space", ⟨23⟩, 5⟩ ∧
      parse "StaticSampler(mipLODBias=1, MipLodBias=(" .first .v1_1 .globalMode =
        .error ⟨.duplicateParameter "mipLODBias", ⟨28⟩, 10⟩ ∧
      parse "DescriptorTable(SRV(t0, space=1, b7((" .first .v1_1 .unspecified =
        .error ⟨.duplicateParameter "shader register", ⟨33⟩, 2⟩ ∧
      parse "RootConstants(space=1)" .first .v1_0 .globalMode =
        .error ⟨.missingParameter .num32BitConstants, ⟨21⟩, 1⟩ := by
  have hspace : Named .space Number [.keyword (.parameter .space), .equals, .uint 1] 1 :=
    ⟨_, rfl, rfl⟩
  have hconstants (dialect : Dialect) : ConstructKind.constants.Listed dialect
      [.keyword (.parameter .space), .equals, .uint 1] [.parameter .space] :=
    ⟨[.space 1], .single hspace, rfl, by decide⟩
  have hsampler (dialect : Dialect) : ConstructKind.staticSampler.Listed dialect
      [.keyword (.parameter .mipLodBias), .equals, .uint 1] [.parameter .mipLodBias] :=
    ⟨[.mipLodBias (.ofInt 1)], .single ⟨_, rfl, .uint 1⟩, rfl, by decide⟩
  have hrange (dialect : Dialect) : (ConstructKind.range .srv).Listed dialect
      ([.register ⟨.t, 0⟩] ++ .comma :: [.keyword (.parameter .space), .equals, .uint 1])
      [.shaderRegister, .parameter .space] :=
    ⟨[.register 0, .space 1], .cons rfl (.single hspace), rfl, by decide⟩
  have hstart {k : ConstructKind} (hk : ∀ type, k ≠ .range type) (dialect : Dialect) :
      k.Before dialect [] :=
    .declaration hk .start
  have hinTable (dialect : Dialect) : (ConstructKind.range .srv).Before dialect
      [.keyword (.opening .descriptorTable), .leftParen] :=
    .range .start .start
  have hspaces : (TokenStream.ofSource "RootConstants(space=1, SPACE" .first).lexemes =
      (TokenStream.ofSource "RootConstants(space=1, SPACE" .first).lexemes.take 6 ++
        ⟨.keyword (.parameter .space), "SPACE", ⟨23⟩⟩ :: [] := by
    decide +kernel
  have hbiases :
      (TokenStream.ofSource "StaticSampler(mipLODBias=1, MipLodBias=(" .first).lexemes =
      (TokenStream.ofSource "StaticSampler(mipLODBias=1, MipLodBias=(" .first).lexemes.take 6 ++
        ⟨.keyword (.parameter .mipLodBias), "MipLodBias", ⟨28⟩⟩ ::
          [⟨.equals, "=", ⟨38⟩⟩, ⟨.leftParen, "(", ⟨39⟩⟩] := by
    decide +kernel
  have hregisters : (TokenStream.ofSource "DescriptorTable(SRV(t0, space=1, b7((" .first).lexemes =
      (TokenStream.ofSource "DescriptorTable(SRV(t0, space=1, b7((" .first).lexemes.take 10 ++
        ⟨.register ⟨.b, 7⟩, "b7", ⟨33⟩⟩ ::
          [⟨.leftParen, "(", ⟨35⟩⟩, ⟨.leftParen, "(", ⟨36⟩⟩] := by
    decide +kernel
  have hmissing : (TokenStream.ofSource "RootConstants(space=1)" .first).lexemes =
      (TokenStream.ofSource "RootConstants(space=1)" .first).lexemes.take 5 ++
        ⟨.rightParen, ")", ⟨21⟩⟩ :: [] := by
    decide +kernel
  refine ⟨?_, ?_, ?_, ?_⟩
  · obtain ⟨_, ⟨⟩, hparse⟩ := (parse_duplicate_or_missing _ _ _ _ _ _ _ _ (hstart (by simp) _)
      (hconstants _) _ _ _ hspaces).1 (.parameter .space) (by decide) rfl (by decide +kernel)
    rwa [← Parameter.label_eq] at hparse
  · obtain ⟨_, ⟨⟩, hparse⟩ := (parse_duplicate_or_missing _ _ _ _ _ _ _ _ (hstart (by simp) _)
      (hsampler _) _ _ _ hbiases).1 (.parameter .mipLodBias) (by decide) rfl (by decide +kernel)
    rwa [← Parameter.label_eq] at hparse
  · obtain ⟨_, ⟨⟩, hparse⟩ := (parse_duplicate_or_missing _ _ _ _ _ _ _ _ (hinTable _)
      (hrange _) _ _ _ hregisters).1 .shaderRegister (by decide) rfl (by decide +kernel)
    exact hparse
  · exact (parse_duplicate_or_missing _ _ _ _ _ _ _ _ (hstart (by simp) _)
      (hconstants _) _ _ _ hmissing).2 .num32BitConstants (by decide) rfl (by decide +kernel)

end RootSignature
