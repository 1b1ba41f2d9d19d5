import RootSignature.Proofs.Grammar.Accepts

/-!
# Constructs accept their rules

Root constants, descriptors, tables with their ranges, and static samplers are read by their rules.
For each of them this is three statements: the items are read by the rule of items (`ItemsAccept`),
the items make a value exactly when the grammar says so (`ofItems_eq_ok_iff`), and so the construct
accepts its rule (`acceptsAt_construct`).
-/

namespace RootSignature.Reader

open Grammar

variable {α β : Type}

/-! ## Items of a construct -/

/-- The name of a parameter is followed by an equals sign and the value. -/
theorem acceptsAt_assigned {value : Reader α} {follow : Token → Prop} {rule : Rule α}
    (hvalue : value.Accepts follow rule) (p : Parameter) :
    (assigned value).AcceptsAt (.keyword (.parameter p)) follow (Named p rule) := by
  intro stop l ls a rest _ hfollow
  rw [run_assigned, run_expect_bind_eq_ok_iff (by decide)]
  refine ⟨fun h => ?_, fun h => ?_⟩
  · obtain ⟨equals, ls, rfl, hequals, h⟩ := h
    obtain ⟨front, rfl, hfront⟩ := (hvalue stop ls a rest hfollow).1 h
    exact ⟨equals :: front, rfl, front.map Lexeme.token, by rw [List.map_cons, hequals], hfront⟩
  · obtain ⟨front, rfl, vs, hvs, hfront⟩ := h
    obtain ⟨equals, front, rfl, hequals, rfl⟩ :=
      List.map_eq_cons_iff.1 (List.cons_eq_cons.1 hvs).2
    exact ⟨equals, front ++ rest, rfl, hequals,
      (hvalue stop _ a rest hfollow).2 ⟨front, rfl, hfront⟩⟩

/-- An item is the one that is read from a token on: its reader accepts the rule of items there, and
all that starts with the token fills its slot. -/
structure ItemAccepts (item : Item α) (t : Token) (rule : Rule α) (slot? : α → Option Slot) :
    Prop where
  accepted : item.read.AcceptsAt t endsItem rule
  slot : ∀ ts a, rule (t :: ts) a → item.slot? = slot? a

/-- An item is read by a reader of a value that it is made of. -/
theorem ItemAccepts.of_map {value : Reader β} {t : Token} {valueRule : Rule β}
    (hvalue : value.AcceptsAt t endsItem valueRule) {make : β → α} {rule : Rule α}
    (hrule : ∀ ts a, rule (t :: ts) a ↔ ∃ b, valueRule (t :: ts) b ∧ make b = a)
    {slot? : α → Option Slot} {filled? : Option Slot} (hslot : ∀ b, slot? (make b) = filled?) :
    ItemAccepts ⟨filled?, make <$> value⟩ t rule slot? where
  accepted := hvalue.map hrule
  slot ts a ha := by
    obtain ⟨b, -, rfl⟩ := (hrule ts a).1 ha
    exact (hslot b).symm

/-- An item is given by the name of a parameter. -/
theorem ItemAccepts.named {p : Parameter} {value : Reader β} {valueRule : Rule β}
    (hvalue : value.Accepts anyToken valueRule) {make : β → α} {rule : Rule α}
    (hrule : ∀ ts a, rule (.keyword (.parameter p) :: ts) a ↔
      ∃ b, Named p valueRule (.keyword (.parameter p) :: ts) b ∧ make b = a)
    {slot? : α → Option Slot} (hslot : ∀ b, slot? (make b) = some (.parameter p)) :
    ItemAccepts (.named p (make <$> value)) (.keyword (.parameter p)) rule slot? where
  accepted := by
    have hmade : (make <$> value).Accepts anyToken fun ts a => ∃ b, valueRule ts b ∧ make b = a :=
      hvalue.map fun _ _ => Iff.rfl
    refine ((acceptsAt_assigned hmade p).before _).congr fun ts a => ?_
    rw [hrule]
    refine ⟨fun h => ?_, fun h => ?_⟩
    · obtain ⟨vs, hvs, b, hb, ha⟩ := h
      exact ⟨b, ⟨vs, hvs, hb⟩, ha⟩
    · obtain ⟨b, ⟨vs, hvs, hb⟩, ha⟩ := h
      exact ⟨vs, hvs, b, hb, ha⟩
  slot ts a ha := by
    obtain ⟨b, -, rfl⟩ := (hrule ts a).1 ha
    exact (hslot b).symm

/-- An item is a register. -/
theorem ItemAccepts.register {c : RegisterClass} {r : RootSignature.Register} {make : UInt32 → α}
    {rule : Rule α}
    (hrule : ∀ ts a, rule (.register r :: ts) a ↔
      ∃ n, Grammar.Register c (.register r :: ts) n ∧ make n = a)
    {slot? : α → Option Slot} {filled? : Option Slot} (hslot : ∀ n, slot? (make n) = filled?) :
    ItemAccepts ⟨filled?, make <$> Reader.register c⟩ (.register r) rule slot? :=
  ItemAccepts.of_map
    (((accepts_register c).acceptsAt (by simp [Grammar.Register]) _).before _) hrule hslot

/-- Items are read by a rule if each is the one that is read from its first token on. -/
theorem ItemsAccept.of_tokens {item? : Token → Option (Item α)} {rule : Rule α}
    {slot? : α → Option Slot} (heof : item? .eof = none) (hnil : ∀ a, ¬ rule [] a)
    (h : ∀ t, (item? t = none ∧ ∀ ts a, ¬ rule (t :: ts) a) ∨
      ∃ item, item? t = some item ∧ ItemAccepts item t rule slot?) :
    ItemsAccept item? rule slot? where
  eof := heof
  ne_nil := hnil
  refused t ts a hnone := by
    rcases h t with ⟨-, hno⟩ | ⟨item, hsome, -⟩
    · exact hno ts a
    · rw [hnone] at hsome
      cases hsome
  accepted t item hitem := by
    rcases h t with ⟨hnone, -⟩ | ⟨item', hsome, haccepts⟩
    · rw [hnone] at hitem
      cases hitem
    · obtain rfl : item' = item := by simpa [hsome] using hitem
      exact haccepts.accepted
  slot t item ts a hitem ha := by
    rcases h t with ⟨hnone, -⟩ | ⟨item', hsome, haccepts⟩
    · rw [hnone] at hitem
      cases hitem
    · obtain rfl : item' = item := by simpa [hsome] using hitem
      exact haccepts.slot ts a ha

/-- What is in parentheses after a first token lies between two lexemes that are parentheses. -/
theorem exists_of_inParens {t t' : Token} {front : List Lexeme} {body : List Token}
    (h : t :: front.map Lexeme.token = t' :: .leftParen :: (body ++ [.rightParen])) :
    ∃ paren inner close, front = paren :: (inner ++ [close]) ∧ paren.token = .leftParen ∧
      close.token = .rightParen ∧ inner.map Lexeme.token = body := by
  obtain ⟨paren, front, rfl, hparen, hfront⟩ := List.map_eq_cons_iff.1 (List.cons_eq_cons.1 h).2
  obtain ⟨inner, closes, rfl, hinner, hcloses⟩ := List.map_eq_append_iff.1 hfront
  obtain ⟨close, rfl, hclose⟩ := List.map_eq_singleton_iff.1 hcloses
  exact ⟨paren, inner, close, rfl, hparen, hclose, hinner⟩

/-- From its opening word on, a construct accepts its rule if its items are read by theirs, and make
a value just when the grammar says so. -/
theorem acceptsAt_construct {item? : Token → Option (Item α)} {rule : Rule α}
    {slot? : α → Option Slot} (hitems : ItemsAccept item? rule slot?)
    {ofItems : List α → Except RequiredParameter β} {Makes : List α → β → Prop}
    (hmakes : ∀ as b, (as.filterMap slot?).Nodup → (ofItems as = .ok b ↔ Makes as b))
    (o : Opening) :
    (construct item? ofItems).AcceptsAt (.keyword (.opening o)) anyToken
      (Construct o rule slot? Makes) := by
  intro stop l ls b rest _ _
  have hroom (as : List α) : Room slot? [] as ↔ (as.filterMap slot?).Nodup := by simp [Room]
  rw [run_construct, inParens, run_expect_bind_eq_ok_iff (by decide)]
  refine ⟨fun h => ?_, fun h => ?_⟩
  · obtain ⟨paren, ls, rfl, hparen, h⟩ := h
    obtain ⟨⟨as, close⟩, rest', hrun, hmade⟩ := run_bind_eq_ok_iff.1 h
    obtain ⟨front, rfl, hclose, hlist, has⟩ := hitems.runItems_eq_ok_iff.1 hrun
    rw [hroom] at has
    dsimp only at hmade
    cases hb : ofItems as with
    | error missing =>
        rw [hb] at hmade
        cases hmade
    | ok b' =>
        rw [hb] at hmade
        cases hmade
        refine ⟨paren :: (front ++ [close]), by simp, front.map Lexeme.token, as, ?_, hlist, has,
          (hmakes as b has).1 hb⟩
        simp [hparen, hclose]
  · obtain ⟨front, rfl, body, as, hts, hlist, has, hb⟩ := h
    obtain ⟨paren, front, close, rfl, hparen, hclose, rfl⟩ := exists_of_inParens hts
    have hrun : (itemList item?).run stop (front ++ close :: rest) = (.ok (as, close), rest) :=
      hitems.runItems_of_commaList hclose hlist rfl ((hroom as).2 has)
    refine ⟨paren, front ++ close :: rest, by simp, hparen,
      run_bind_eq_ok_iff.2 ⟨(as, close), rest, hrun, ?_⟩⟩
    dsimp only
    rw [(hmakes as b has).2 hb]
    rfl

/-! ## What items make -/

section
variable {items : List α} {make : β → α} {pick : α → Option β}

/-- No two items of a list that fill one slot are different, if no slot is filled twice. -/
theorem eq_of_slot?_eq {slot? : α → Option Slot} (hnodup : (items.filterMap slot?).Nodup)
    {a a' : α} (ha : a ∈ items) (ha' : a' ∈ items) {s : Slot} (hs : slot? a = some s)
    (hs' : slot? a' = some s) : a = a' := by
  induction items with
  | nil => cases ha
  | cons b items ih =>
      have hne (c : α) (hc : c ∈ items) (hb : slot? b = some s) : slot? c ≠ some s := by
        intro hcs
        rw [List.filterMap_cons_some hb, List.nodup_cons] at hnodup
        exact hnodup.1 (List.mem_filterMap.2 ⟨c, hc, hcs⟩)
      rcases List.mem_cons.1 ha with rfl | hmem <;> rcases List.mem_cons.1 ha' with rfl | hmem'
      · rfl
      · exact absurd hs' (hne a' hmem' hs)
      · exact absurd hs (hne a hmem hs')
      · refine ih ?_ hmem hmem'
        cases hb : slot? b with
        | none => rwa [List.filterMap_cons_none hb] at hnodup
        | some s' =>
            rw [List.filterMap_cons_some hb] at hnodup
            exact (List.nodup_cons.1 hnodup).2

/-- At most one value is given, if its items fill a slot. -/
theorem unique_of_slot {slot? : α → Option Slot} (hnodup : (items.filterMap slot?).Nodup)
    (hpick : ∀ a b, pick a = some b ↔ a = make b) {s : Slot} (hslot : ∀ b, slot? (make b) = some s)
    {b b' : β} (hb : make b ∈ items) (hb' : make b' ∈ items) : b = b' := by
  have hsame := eq_of_slot?_eq hnodup hb hb' (hslot b) (hslot b')
  have hpicked := (hpick (make b) b).2 rfl
  rw [(hpick (make b) b').2 hsame] at hpicked
  exact (Option.some.inj hpicked).symm

/-- The first item of a kind is the one that is given, if only one can be given. -/
theorem findSome?_eq_some_iff (hpick : ∀ a b, pick a = some b ↔ a = make b)
    (huniq : ∀ b b', make b ∈ items → make b' ∈ items → b = b') {b : β} :
    items.findSome? pick = some b ↔ make b ∈ items := by
  refine ⟨fun h => ?_, fun hb => ?_⟩
  · obtain ⟨a, ha, hab⟩ := List.exists_of_findSome?_eq_some h
    exact (hpick a b).1 hab ▸ ha
  · cases h : items.findSome? pick with
    | none =>
        have hnone := List.findSome?_eq_none_iff.1 h _ hb
        rw [(hpick _ b).2 rfl] at hnone
        cases hnone
    | some b' =>
        obtain ⟨a, ha, hab⟩ := List.exists_of_findSome?_eq_some h
        rw [huniq b' b ((hpick a b').1 hab ▸ ha) hb]

/-- The first item of a kind, or the default, is what is given, if only one can be given. -/
theorem getD_findSome?_eq_iff (hpick : ∀ a b, pick a = some b ↔ a = make b)
    (huniq : ∀ b b', make b ∈ items → make b' ∈ items → b = b') {default b : β} :
    (items.findSome? pick).getD default = b ↔ GivenOr items make default b := by
  cases h : items.findSome? pick with
  | none =>
      have hnone (b' : β) : make b' ∉ items := by
        intro hb'
        rw [(findSome?_eq_some_iff hpick huniq).2 hb'] at h
        cases h
      rw [Option.getD_none]
      exact ⟨fun hb => .inr ⟨hnone, hb.symm⟩, fun hb => (hb.resolve_left (hnone b)).2.symm⟩
  | some b' =>
      have hb' := (findSome?_eq_some_iff hpick huniq).1 h
      rw [Option.getD_some]
      refine ⟨fun hb => ?_, fun hgiven => ?_⟩
      · obtain rfl := hb
        exact .inl hb'
      · rcases hgiven with hb | ⟨hnone, -⟩
        · exact huniq b' b hb' hb
        · exact absurd hb' (hnone b')

section
variable {slot? : α → Option Slot} (hnodup : (items.filterMap slot?).Nodup)
  (hpick : ∀ a b, pick a = some b ↔ a = make b) {s : Slot} (hslot : ∀ b, slot? (make b) = some s)
include hnodup hpick hslot

/-- What is picked from items is one of them. -/
theorem given_iff {b : β} : items.findSome? pick = some b ↔ make b ∈ items :=
  findSome?_eq_some_iff hpick fun _ _ => unique_of_slot hnodup hpick hslot

/-- What is picked from items is one of them, or else the default. -/
theorem givenOr_iff {default b : β} :
    (items.findSome? pick).getD default = b ↔ GivenOr items make default b :=
  getD_findSome?_eq_iff hpick fun _ _ => unique_of_slot hnodup hpick hslot

end

end

/-- What is made with the value of a needed parameter needs it to be given. -/
theorem require_bind_eq_ok_iff {p : RequiredParameter} {o : Option α}
    {f : α → Except RequiredParameter β} {b : β} :
    (p.require o >>= f) = .ok b ↔ ∃ a, o = some a ∧ f a = .ok b := by
  cases o with
  | none => simp [RequiredParameter.require, Bind.bind, Except.bind]
  | some a => simp [RequiredParameter.require, Bind.bind, Except.bind]

end RootSignature.Reader

namespace RootSignature

open Grammar Reader

/-! ## Constants -/

namespace ConstantsItem

/-- The items of root constants are read as they are written. -/
theorem itemsAccept : ItemsAccept ofToken? Written slot? := by
  refine .of_tokens rfl (fun item => by cases item <;> simp [Written])
    fun t => ?_
  cases t with
  | keyword k =>
      cases k with
      | parameter p =>
          cases p with
          | num32BitConstants | space =>
              refine .inr ⟨_, rfl, .named accepts_uint ?_ fun _ => rfl⟩
              intro ts item
              cases item <;> simp [Written]
          | visibility =>
              refine .inr ⟨_, rfl, .named accepts_visibility ?_ fun _ => rfl⟩
              intro ts item
              cases item <;> simp [Written]
          | _ =>
              refine .inl ⟨rfl, ?_⟩
              intro ts item
              cases item <;> simp [Written]
      | _ =>
          refine .inl ⟨rfl, ?_⟩
          intro ts item
          cases item <;> simp [Written]
  | register r =>
      obtain ⟨c, n⟩ := r
      cases c with
      | b =>
          refine .inr ⟨_, rfl, .register ?_ fun _ => rfl⟩
          intro ts item
          cases item <;> simp [Written]
      | _ =>
          refine .inl ⟨rfl, ?_⟩
          intro ts item
          cases item <;> simp [Written]
  | _ =>
      refine .inl ⟨rfl, ?_⟩
      intro ts item
      cases item <;> simp [Written]

/-- The items make a parameter just when the grammar says so. -/
theorem ofItems_eq_ok_iff (items : List ConstantsItem) (p : RootParameterV1_1)
    (h : (items.filterMap slot?).Nodup) : ofItems items = .ok p ↔ Makes items p := by
  unfold ofItems
  simp only [require_bind_eq_ok_iff]
  refine ⟨fun hmade => ?_, fun hmade => ?_⟩
  · obtain ⟨count, hcount, index, hindex, hp⟩ := hmade
    cases hp
    refine .intro ((given_iff h ?_ fun _ => rfl).1 hcount) ((given_iff h ?_ fun _ => rfl).1 hindex)
      ((givenOr_iff h ?_ fun _ => rfl).1 rfl) ((givenOr_iff h ?_ fun _ => rfl).1 rfl) <;>
    intro item <;> cases item <;> simp [eq_comm]
  · obtain ⟨hcount, hindex, hspace, hvisibility⟩ := hmade
    refine ⟨_, (given_iff h ?_ fun _ => rfl).2 hcount, _, (given_iff h ?_ fun _ => rfl).2 hindex,
      ?_⟩
    case refine_3 =>
      rw [(givenOr_iff h ?_ fun _ => rfl).2 hspace, (givenOr_iff h ?_ fun _ => rfl).2 hvisibility]
      · rfl
      all_goals (intro item; cases item <;> simp [eq_comm])
    all_goals (intro item; cases item <;> simp [eq_comm])

end ConstantsItem

/-! ## Flags of parameters -/

/-- The flags of a signature are read as they are written. -/
theorem Reader.accepts_rootFlagWord (dialect : Dialect) (l : Lexeme) (f : RootFlag) :
    WrittenFlag.ofLexeme dialect l = .ok f ↔ RootFlagWord dialect l.token f := by
  rw [ofLexeme_eq_ok_iff]
  refine ⟨fun h => ?_, fun h => ?_⟩
  · obtain ⟨k, hk, hf, hlocal⟩ := h
    cases k with
    | rootFlag f' =>
        cases hf
        exact ⟨hk, by simpa using hlocal⟩
    | _ => cases hf
  · obtain ⟨hk, hlocal⟩ := h
    exact ⟨_, hk, rfl, by simpa using hlocal⟩

/-- The flags of a descriptor are read as they are written. -/
theorem Reader.accepts_descriptorFlagWord (dialect : Dialect) (l : Lexeme) (f : DescriptorFlag) :
    WrittenFlag.ofLexeme dialect l = .ok f ↔ DescriptorFlagWord l.token f := by
  rw [ofLexeme_eq_ok_iff]
  refine ⟨fun h => ?_, fun hk => ?_⟩
  · obtain ⟨k, hk, hf, -⟩ := h
    cases k with
    | rangeFlag f' =>
        obtain rfl := RangeFlag.toDescriptorFlag?_eq_some_iff.1 hf
        exact hk
    | _ => cases hf
  · exact ⟨_, hk, RangeFlag.toDescriptorFlag?_eq_some_iff.2 rfl, by simp⟩

/-- The flags of a range are read as they are written. -/
theorem Reader.accepts_rangeFlagWord (dialect : Dialect) (l : Lexeme) (f : RangeFlag) :
    WrittenFlag.ofLexeme dialect l = .ok f ↔ RangeFlagWord l.token f := by
  rw [ofLexeme_eq_ok_iff]
  refine ⟨fun h => ?_, fun hk => ?_⟩
  · obtain ⟨k, hk, hf, -⟩ := h
    cases k with
    | rangeFlag f' =>
        cases hf
        exact hk
    | _ => cases hf
  · exact ⟨_, hk, rfl, by simp⟩

/-- The flags of a parameter are read only in version 1.1. -/
theorem Reader.acceptsAt_parameterFlags {F : Type} [WrittenFlag F] {dialect : Dialect}
    {word : Token → F → Prop}
    (hword : ∀ l f, WrittenFlag.ofLexeme dialect l = .ok f ↔ word l.token f)
    (huint : ∀ n f, ¬ word (.uint n) f) :
    (parameterFlags dialect : Reader (FlagSet F)).AcceptsAt (.keyword (.parameter .flags)) endsItem
      fun ts fs => dialect.version = .v1_1 ∧ Named .flags (Flags word) ts fs := by
  intro stop l ls fs rest hl hend
  unfold parameterFlags
  cases hversion : dialect.version with
  | v1_0 => simp [run_bind, run_peek, run_fail]
  | v1_1 =>
      have hfollow : canFollowParameter (head stop rest).token = true := by
        rcases hend with hend | hend <;> rw [hend] <;> rfl
      have hflags : (assigned (flags dialect canFollowParameter)).AcceptsAt
          (.keyword (.parameter .flags)) (canFollowParameter · = true)
          (Named .flags (Flags word)) :=
        acceptsAt_assigned (accepts_flags hword huint rfl) .flags
      simpa using hflags stop l ls fs rest hl hfollow

/-! ## Descriptors -/

namespace DescriptorItem

variable {dialect : Dialect} {type : DescriptorType}

/-- The items of a descriptor are read as they are written. -/
theorem itemsAccept : ItemsAccept (ofToken? dialect type) (Written dialect type) slot? := by
  refine .of_tokens rfl (fun item => by cases item <;> simp [Written])
    fun t => ?_
  cases t with
  | keyword k =>
      cases k with
      | parameter p =>
          cases p with
          | flags =>
              refine .inr ⟨_, rfl, .of_map (acceptsAt_parameterFlags
                (accepts_descriptorFlagWord dialect) (by simp [DescriptorFlagWord])) ?_
                fun _ => rfl⟩
              intro ts item
              cases item <;> simp [Written]
          | space =>
              refine .inr ⟨_, rfl, .named accepts_uint ?_ fun _ => rfl⟩
              intro ts item
              cases item <;> simp [Written]
          | visibility =>
              refine .inr ⟨_, rfl, .named accepts_visibility ?_ fun _ => rfl⟩
              intro ts item
              cases item <;> simp [Written]
          | _ =>
              refine .inl ⟨rfl, ?_⟩
              intro ts item
              cases item <;> simp [Written]
      | _ =>
          refine .inl ⟨rfl, ?_⟩
          intro ts item
          cases item <;> simp [Written]
  | register r =>
      obtain ⟨c, n⟩ := r
      cases c with
      | s =>
          -- No descriptor has a sampler register.
          refine .inl ⟨rfl, ?_⟩
          rintro ts (_ | _ | _ | _) <;> cases type <;>
            simp [Written, Named, Grammar.Register, DescriptorType.registerClass]
      | _ =>
          refine .inr ⟨_, rfl, .register ?_ fun _ => rfl⟩
          intro ts item
          cases item <;> simp [Written]
  | _ =>
      refine .inl ⟨rfl, ?_⟩
      intro ts item
      cases item <;> simp [Written]

/-- The items make a parameter just when the grammar says so. -/
theorem ofItems_eq_ok_iff (items : List DescriptorItem) (p : RootParameterV1_1)
    (h : (items.filterMap slot?).Nodup) : ofItems type items = .ok p ↔ Makes type items p := by
  unfold ofItems
  rw [require_bind_eq_ok_iff]
  refine ⟨fun hmade => ?_, fun hmade => ?_⟩
  · obtain ⟨index, hindex, hp⟩ := hmade
    cases hp
    refine .intro ((given_iff h ?_ fun _ => rfl).1 hindex) ((givenOr_iff h ?_ fun _ => rfl).1 rfl)
      ((givenOr_iff h ?_ fun _ => rfl).1 rfl) ((givenOr_iff h ?_ fun _ => rfl).1 rfl) <;>
    intro item <;> cases item <;> simp [eq_comm]
  · obtain ⟨hindex, hspace, hflags, hvisibility⟩ := hmade
    refine ⟨_, (given_iff h ?_ fun _ => rfl).2 hindex, ?_⟩
    case refine_2 =>
      dsimp only
      rw [(givenOr_iff h ?_ fun _ => rfl).2 hspace, (givenOr_iff h ?_ fun _ => rfl).2 hflags,
        (givenOr_iff h ?_ fun _ => rfl).2 hvisibility]
      · rfl
      all_goals (intro item; cases item <;> simp [eq_comm])
    all_goals (intro item; cases item <;> simp [eq_comm])

end DescriptorItem

/-! ## Ranges and tables -/

namespace RangeItem

variable {dialect : Dialect} {type : RangeType}

/-- The items of a range are read as they are written. -/
theorem itemsAccept : ItemsAccept (ofToken? dialect type) (Written dialect type) slot? := by
  refine .of_tokens rfl (fun item => by cases item <;> simp [Written])
    fun t => ?_
  fun_cases ofToken? dialect type t with
  | case1 n =>
      refine .inr ⟨_, rfl, .register ?_ fun _ => rfl⟩
      intro ts item
      cases item <;> simp [Written]
  | case2 =>
      refine .inr ⟨_, rfl, .named accepts_descriptorCount ?_ fun _ => rfl⟩
      intro ts item
      cases item <;> simp [Written]
  | case3 =>
      refine .inr ⟨_, rfl, .named accepts_uint ?_ fun _ => rfl⟩
      intro ts item
      cases item <;> simp [Written]
  | case4 =>
      refine .inr ⟨_, rfl, .of_map (acceptsAt_parameterFlags (accepts_rangeFlagWord dialect)
        (by simp [RangeFlagWord])) ?_ fun _ => rfl⟩
      intro ts item
      cases item <;> simp [Written]
  | case5 =>
      refine .inr ⟨_, rfl, .named accepts_rangeOffset ?_ fun _ => rfl⟩
      intro ts item
      cases item <;> simp [Written]
  | case6 =>
      refine .inl ⟨rfl, ?_⟩
      intro ts item
      cases item <;> simp_all [Written]

/-- The items make a range just when the grammar says so. -/
theorem ofItems_eq_ok_iff (items : List RangeItem) (r : DescriptorRange (FlagSet RangeFlag))
    (h : (items.filterMap slot?).Nodup) : ofItems type items = .ok r ↔ Makes type items r := by
  unfold ofItems
  rw [require_bind_eq_ok_iff]
  refine ⟨fun hmade => ?_, fun hmade => ?_⟩
  · obtain ⟨index, hindex, hr⟩ := hmade
    cases hr
    refine .intro ((given_iff h ?_ fun _ => rfl).1 hindex) ((givenOr_iff h ?_ fun _ => rfl).1 rfl)
      ((givenOr_iff h ?_ fun _ => rfl).1 rfl) ((givenOr_iff h ?_ fun _ => rfl).1 rfl)
      ((givenOr_iff h ?_ fun _ => rfl).1 rfl) <;>
    intro item <;> cases item <;> simp [eq_comm]
  · obtain ⟨hindex, hcount, hspace, hoffset, hflags⟩ := hmade
    refine ⟨_, (given_iff h ?_ fun _ => rfl).2 hindex, ?_⟩
    case refine_2 =>
      dsimp only [DescriptorRange.ofRegister]
      rw [(givenOr_iff h ?_ fun _ => rfl).2 hcount, (givenOr_iff h ?_ fun _ => rfl).2 hspace,
        (givenOr_iff h ?_ fun _ => rfl).2 hflags, (givenOr_iff h ?_ fun _ => rfl).2 hoffset]
      · rfl
      all_goals (intro item; cases item <;> simp [eq_comm])
    all_goals (intro item; cases item <;> simp [eq_comm])

end RangeItem

/-- A range is read by its rule. -/
theorem Reader.acceptsAt_descriptorRange (dialect : Dialect) (type : RangeType) :
    (descriptorRange dialect type).AcceptsAt (.keyword (.opening type.opening)) anyToken
      fun ts r => r.type = type ∧ r.Written dialect ts := by
  refine (acceptsAt_construct RangeItem.itemsAccept RangeItem.ofItems_eq_ok_iff _).congr
    fun ts r => ?_
  refine ⟨fun h => ?_, fun h => ?_⟩
  · obtain ⟨body, as, hts, hlist, hnodup, hmakes⟩ := h
    obtain rfl : r.type = type := by cases hmakes; rfl
    exact ⟨rfl, body, as, hts, hlist, hnodup, hmakes⟩
  · obtain ⟨rfl, h⟩ := h
    exact h

namespace TableItem

variable {dialect : Dialect}

/-- What is written as a range of a type opens with the word for the type. -/
theorem written_range_iff {type : RangeType} {ts : List Token} {item : TableItem} :
    Written dialect (.keyword (.opening type.opening) :: ts) item ↔
      ∃ r, (r.type = type ∧ r.Written dialect (.keyword (.opening type.opening) :: ts)) ∧
        range r = item := by
  cases item with
  | visibility v => simp [Written, Named]
  | range r =>
      refine ⟨fun h => ?_, fun h => ?_⟩
      · obtain ⟨body, as, hts, -⟩ := id h
        have htype : r.type = type := by
          cases hr : r.type <;> cases type <;> simp [hr, RangeType.opening] at hts <;> rfl
        exact ⟨r, ⟨htype, h⟩, rfl⟩
      · obtain ⟨r', ⟨-, h⟩, hr⟩ := h
        cases hr
        exact h

/-- A range in a table is read as it is written. -/
theorem itemAccepts_rangeItem (type : RangeType) :
    ItemAccepts (rangeItem dialect type) (.keyword (.opening type.opening)) (Written dialect)
      slot? :=
  .of_map ((acceptsAt_descriptorRange dialect type).before _) (fun _ _ => written_range_iff)
    fun _ => rfl

/-- The items of a table are read as they are written. -/
theorem itemsAccept : ItemsAccept (ofToken? dialect) (Written dialect) slot? := by
  refine .of_tokens rfl
    (by rintro (_ | _) <;> simp [Written, Named, DescriptorRange.Written, Construct]) fun t => ?_
  fun_cases ofToken? dialect t with
  | case1 => exact .inr ⟨_, rfl, itemAccepts_rangeItem .cbv⟩
  | case2 => exact .inr ⟨_, rfl, itemAccepts_rangeItem .srv⟩
  | case3 => exact .inr ⟨_, rfl, itemAccepts_rangeItem .uav⟩
  | case4 => exact .inr ⟨_, rfl, itemAccepts_rangeItem .sampler⟩
  | case5 =>
      refine .inr ⟨_, rfl, .named accepts_visibility ?_ fun _ => rfl⟩
      rintro ts (_ | _) <;> simp [Written, Named, DescriptorRange.Written, Construct]
  | case6 =>
      refine .inl ⟨rfl, ?_⟩
      rintro ts (⟨type, _⟩ | _)
      · cases type <;> simp_all [Written, DescriptorRange.Written, Construct, RangeType.opening]
      · simp_all [Written, Named]

/-- The items make a parameter just when the grammar says so. -/
theorem ofItems_eq_ok_iff (items : List TableItem) (p : RootParameterV1_1)
    (h : (items.filterMap slot?).Nodup) : ofItems items = .ok p ↔ Makes items p := by
  unfold ofItems
  refine ⟨fun hp => ?_, fun hmade => ?_⟩
  · cases hp
    refine .intro ((givenOr_iff h ?_ fun _ => rfl).1 rfl)
    intro item
    cases item <;> simp
  · obtain ⟨hvisibility⟩ := hmade
    dsimp only
    rw [(givenOr_iff h ?_ fun _ => rfl).2 hvisibility]
    · rfl
    · intro item
      cases item <;> simp

end TableItem

/-! ## Static samplers -/

namespace SamplerItem

/-- The items of a static sampler are read as they are written. -/
theorem itemsAccept : ItemsAccept ofToken? Written slot? := by
  refine .of_tokens rfl (fun item => by cases item <;> simp [Written]) fun t => ?_
  fun_cases ofToken? t with
  | case1 p =>
      fun_cases ofParameter? p with
      | case1 =>
          refine .inr ⟨_, rfl, .named accepts_filter ?_ fun _ => rfl⟩
          intro ts item
          cases item <;> simp [Written]
      | case2 | case3 | case4 =>
          refine .inr ⟨_, rfl, .named accepts_addressMode ?_ fun _ => rfl⟩
          intro ts item
          cases item <;> simp [Written]
      | case5 | case9 | case10 =>
          refine .inr ⟨_, rfl, .named accepts_float ?_ fun _ => rfl⟩
          intro ts item
          cases item <;> simp [Written]
      | case6 | case11 =>
          refine .inr ⟨_, rfl, .named accepts_uint ?_ fun _ => rfl⟩
          intro ts item
          cases item <;> simp [Written]
      | case7 =>
          refine .inr ⟨_, rfl, .named accepts_comparison ?_ fun _ => rfl⟩
          intro ts item
          cases item <;> simp [Written]
      | case8 =>
          refine .inr ⟨_, rfl, .named accepts_borderColor ?_ fun _ => rfl⟩
          intro ts item
          cases item <;> simp [Written]
      | case12 =>
          refine .inr ⟨_, rfl, .named accepts_visibility ?_ fun _ => rfl⟩
          intro ts item
          cases item <;> simp [Written]
      | case13 | case14 | case15 | case16 =>
          refine .inl ⟨rfl, ?_⟩
          intro ts item
          cases item <;> simp [Written]
  | case2 n =>
      refine .inr ⟨_, rfl, .register ?_ fun _ => rfl⟩
      intro ts item
      cases item <;> simp [Written]
  | case3 =>
      refine .inl ⟨rfl, ?_⟩
      intro ts item
      cases item <;> simp_all [Written]

/-- The items make a sampler just when the grammar says so. -/
theorem ofItems_eq_ok_iff (items : List SamplerItem) (s : StaticSampler)
    (h : (items.filterMap slot?).Nodup) : ofItems items = .ok s ↔ Makes items s := by
  unfold ofItems
  rw [require_bind_eq_ok_iff]
  refine ⟨fun hmade => ?_, fun hs => ?_⟩
  · obtain ⟨index, hindex, hs⟩ := hmade
    cases hs
    refine ⟨(given_iff h ?_ fun _ => rfl).1 hindex, (givenOr_iff h ?_ fun _ => rfl).1 rfl,
      (givenOr_iff h ?_ fun _ => rfl).1 rfl, (givenOr_iff h ?_ fun _ => rfl).1 rfl,
      (givenOr_iff h ?_ fun _ => rfl).1 rfl, (givenOr_iff h ?_ fun _ => rfl).1 rfl,
      (givenOr_iff h ?_ fun _ => rfl).1 rfl, (givenOr_iff h ?_ fun _ => rfl).1 rfl,
      (givenOr_iff h ?_ fun _ => rfl).1 rfl, (givenOr_iff h ?_ fun _ => rfl).1 rfl,
      (givenOr_iff h ?_ fun _ => rfl).1 rfl, (givenOr_iff h ?_ fun _ => rfl).1 rfl,
      (givenOr_iff h ?_ fun _ => rfl).1 rfl⟩ <;>
    intro item <;> cases item <;> simp [eq_comm]
  · refine ⟨_, (given_iff h ?_ fun _ => rfl).2 hs.register, congrArg Except.ok
      (StaticSampler.ext rfl
        ((givenOr_iff h ?_ fun _ => rfl).2 hs.filter)
        ((givenOr_iff h ?_ fun _ => rfl).2 hs.addressU)
        ((givenOr_iff h ?_ fun _ => rfl).2 hs.addressV)
        ((givenOr_iff h ?_ fun _ => rfl).2 hs.addressW)
        ((givenOr_iff h ?_ fun _ => rfl).2 hs.mipLodBias)
        ((givenOr_iff h ?_ fun _ => rfl).2 hs.maxAnisotropy)
        ((givenOr_iff h ?_ fun _ => rfl).2 hs.comparison)
        ((givenOr_iff h ?_ fun _ => rfl).2 hs.borderColor)
        ((givenOr_iff h ?_ fun _ => rfl).2 hs.minLod)
        ((givenOr_iff h ?_ fun _ => rfl).2 hs.maxLod)
        ((givenOr_iff h ?_ fun _ => rfl).2 hs.space)
        ((givenOr_iff h ?_ fun _ => rfl).2 hs.visibility))⟩ <;>
    intro item <;> cases item <;> simp [eq_comm]

end SamplerItem

end RootSignature
