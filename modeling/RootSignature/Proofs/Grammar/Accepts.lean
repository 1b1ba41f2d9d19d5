import RootSignature.Proofs.Grammar.Written
import RootSignature.Proofs.Reader.Run
import RootSignature.Proofs.Signature.FlagSet

/-!
# Readers that accept a rule

A reader accepts a rule of the grammar (`Reader.Accepts`) if it answers a value exactly after taking
lexemes whose tokens stand for that value. Some lists end only before certain tokens, so acceptance
is said of the token that comes next: flags are read up to a token that can follow them, all else is
read alike before any token (`anyToken`).

`runItems_eq_ok_iff` is the main statement here: if every item is read by its rule (`ItemsAccept`),
then reading items accepts the lists of items with commas between them, of which no two fill the
same slot.
-/

namespace RootSignature.Reader

open Grammar

variable {α β : Type}

/-- Any token may come next. -/
def anyToken : Token → Prop := fun _ => True

/-- Before a token that may follow, the reader answers exactly what the rule says of the tokens that
are taken. -/
def Accepts (r : Reader α) (follow : Token → Prop) (rule : Rule α) : Prop :=
  ∀ stop ls a rest, follow (head stop rest).token →
    (r.run stop ls = (.ok a, rest) ↔ ∃ front, ls = front ++ rest ∧ rule (front.map Lexeme.token) a)

/-- Before a token that may follow, and from a token on, the reader answers exactly what the rule
says of the tokens that are taken. -/
def AcceptsAt (r : Reader α) (t : Token) (follow : Token → Prop) (rule : Rule α) : Prop :=
  ∀ stop l ls a rest, l.token = t → follow (head stop rest).token →
    (r.run stop (l :: ls) = (.ok a, rest) ↔
      ∃ front, ls = front ++ rest ∧ rule (t :: front.map Lexeme.token) a)

/-- A reader that accepts a rule does so from any token on, if the rule needs a token. -/
theorem Accepts.acceptsAt {r : Reader α} {follow : Token → Prop} {rule : Rule α}
    (hr : r.Accepts follow rule) (hnil : ∀ a, ¬ rule [] a) (t : Token) :
    r.AcceptsAt t follow rule := by
  rintro stop l ls a rest rfl hfollow
  rw [hr stop (l :: ls) a rest hfollow]
  refine ⟨fun h => ?_, fun h => ?_⟩
  · obtain ⟨front, hls, hfront⟩ := h
    cases front with
    | nil => exact absurd hfront (hnil a)
    | cons m front =>
        obtain ⟨rfl, rfl⟩ : l = m ∧ ls = front ++ rest := by simpa using hls
        exact ⟨front, rfl, hfront⟩
  · obtain ⟨front, rfl, hfront⟩ := h
    exact ⟨l :: front, rfl, hfront⟩

/-- What may come before any token may come before some. -/
theorem AcceptsAt.before {r : Reader α} {t : Token} {rule : Rule α}
    (hr : r.AcceptsAt t anyToken rule) (follow : Token → Prop) : r.AcceptsAt t follow rule :=
  fun stop l ls a rest hl _ => hr stop l ls a rest hl trivial

/-- From a token on, only what a rule says of lists that start with this token counts. -/
theorem AcceptsAt.congr {r : Reader α} {t : Token} {follow : Token → Prop} {rule rule' : Rule α}
    (hr : r.AcceptsAt t follow rule) (h : ∀ ts a, rule (t :: ts) a ↔ rule' (t :: ts) a) :
    r.AcceptsAt t follow rule' := by
  intro stop l ls a rest hl hfollow
  simp only [hr stop l ls a rest hl hfollow, h]

/-- A reader of one lexeme accepts the rule of one token that its test follows. -/
theorem accepts_take {f : Lexeme → Except Reason α} {rule : Rule α}
    (hrule : ∀ ts a, rule ts a → ∃ t, ts = [t]) (hend : ∀ l a, l.token = .eof → f l ≠ .ok a)
    (hf : ∀ l a, f l = .ok a ↔ rule [l.token] a) : (take f).Accepts anyToken rule := by
  intro stop ls a rest _
  rw [run_take]
  refine ⟨fun h => ?_, fun h => ?_⟩
  · cases ls with
    | nil =>
        cases hl : f (.endAt stop) with
        | ok b => exact absurd hl (hend _ b rfl)
        | error reason => simp [hl] at h
    | cons l ls =>
        cases hl : f l with
        | error reason => simp [hl] at h
        | ok b =>
            obtain ⟨rfl, rfl⟩ : b = a ∧ ls = rest := by simpa [hl] using h
            exact ⟨[l], rfl, (hf l b).1 hl⟩
  · obtain ⟨front, rfl, h⟩ := h
    obtain ⟨t, ht⟩ := hrule _ _ h
    obtain ⟨l, rfl⟩ : ∃ l, front = [l] := by
      cases front with
      | nil => simp at ht
      | cons l front => cases front <;> simp_all
    have hl := (hf l a).2 h
    simp [hl]

/-! ## Values -/

/-- Whole numbers are read as they are written. -/
theorem accepts_uint : uint.Accepts anyToken Number := by
  rw [uint_eq_take]
  refine accepts_take (fun ts n h => ⟨_, h⟩) (fun l n hl => by simp [hl]) fun l n => ?_
  cases hl : l.token <;> simp [Number, eq_comm]

theorem accepts_float : float.Accepts anyToken FloatNumber := by
  rw [float_eq_take]
  refine accepts_take (fun ts x h => by cases h <;> exact ⟨_, rfl⟩) (fun l x hl => by simp [hl])
    fun l x => ?_
  cases hl : l.token with
  | uint n | int n | float y =>
      refine ⟨fun h => ?_, fun h => ?_⟩
      · cases h
        constructor
      · cases h
        rfl
  | _ =>
      refine ⟨fun h => ?_, fun h => ?_⟩
      · cases h
      · cases h

/-- A reader of words accepts the words that stand for a value. -/
theorem accepts_choice (kind : ValueKind) {value? : Keyword → Option α} {keyword : α → Keyword}
    (h : ∀ k a, value? k = some a ↔ k = keyword a) :
    (choice kind value?).Accepts anyToken (Word keyword) := by
  rw [choice_eq_take]
  refine accepts_take (fun ts a h => ⟨_, h⟩) (fun l a hl => by simp [hl, keywordValue?])
    fun l a => ?_
  cases hl : l.token with
  | keyword k => cases hk : value? k <;> simp [Word, keywordValue?, hk, ← h]
  | _ => simp [Word, keywordValue?]

/-- Registers of a class are read as they are written. -/
theorem accepts_register (c : RegisterClass) :
    (register c).Accepts anyToken (Grammar.Register c) := by
  rw [register_eq_take]
  refine accepts_take (fun ts n h => ⟨_, h⟩) (fun l n hl => by simp [hl]) fun l n => ?_
  cases hl : l.token with
  | register r =>
      obtain ⟨c', m⟩ := r
      by_cases hc : c' = c <;> simp [Grammar.Register, hc]
  | _ => simp [Grammar.Register]

/-- A value that is made of another one is written like it. -/
theorem Accepts.map {r : Reader α} {follow : Token → Prop} {rule : Rule α} {rule' : Rule β}
    (hr : r.Accepts follow rule) {f : α → β} (h : ∀ ts b, rule' ts b ↔ ∃ a, rule ts a ∧ f a = b) :
    (f <$> r).Accepts follow rule' := by
  intro stop ls b rest hfollow
  rw [run_map_eq_ok_iff]
  refine ⟨fun hread => ?_, fun hread => ?_⟩
  · obtain ⟨a, hrun, rfl⟩ := hread
    obtain ⟨front, hls, hfront⟩ := (hr stop ls a rest hfollow).1 hrun
    exact ⟨front, hls, (h _ _).2 ⟨a, hfront, rfl⟩⟩
  · obtain ⟨front, hls, hfront⟩ := hread
    obtain ⟨a, ha, rfl⟩ := (h _ _).1 hfront
    exact ⟨a, (hr stop ls a rest hfollow).2 ⟨front, hls, ha⟩, rfl⟩

/-- A value that is made of another one is written like it, from a token on. -/
theorem AcceptsAt.map {r : Reader α} {t : Token} {follow : Token → Prop} {rule : Rule α}
    {rule' : Rule β} (hr : r.AcceptsAt t follow rule) {f : α → β}
    (h : ∀ ts b, rule' (t :: ts) b ↔ ∃ a, rule (t :: ts) a ∧ f a = b) :
    (f <$> r).AcceptsAt t follow rule' := by
  intro stop l ls b rest hl hfollow
  rw [run_map_eq_ok_iff]
  refine ⟨fun hread => ?_, fun hread => ?_⟩
  · obtain ⟨a, hrun, rfl⟩ := hread
    obtain ⟨front, hls, hfront⟩ := (hr stop l ls a rest hl hfollow).1 hrun
    exact ⟨front, hls, (h _ _).2 ⟨a, hfront, rfl⟩⟩
  · obtain ⟨front, hls, hfront⟩ := hread
    obtain ⟨a, ha, rfl⟩ := (h _ _).1 hfront
    exact ⟨a, (hr stop l ls a rest hl hfollow).2 ⟨front, hls, ha⟩, rfl⟩

/-- A keyword may stand for a value, unless it could be the start of one. -/
theorem Accepts.orKeyword {r : Reader α} {rule : Rule α} (hr : r.Accepts anyToken rule)
    (k : Keyword) (instead : α) (hk : ∀ ts a, ¬ rule (.keyword k :: ts) a)
    (hnil : ∀ a, ¬ rule [] a) :
    (Reader.orKeyword k instead r).Accepts anyToken
      fun ts a => rule ts a ∨ ts = [.keyword k] ∧ a = instead := by
  intro stop ls a rest _
  have hrun : (Reader.orKeyword k instead r).run stop ls =
      if (head stop ls).token = .keyword k then (.ok instead, ls.tail) else r.run stop ls := by
    rw [Reader.orKeyword, run_bind, run_peek, ← head_eq]
    dsimp only
    split <;> rfl
  rw [hrun]
  by_cases hhead : (head stop ls).token = .keyword k
  · rw [if_pos hhead]
    obtain ⟨l, ls, rfl, hl⟩ := exists_cons_of_head hhead (by simp)
    refine ⟨fun h => ?_, fun h => ?_⟩
    · obtain ⟨rfl, rfl⟩ : instead = a ∧ ls = rest := by simpa using h
      exact ⟨[l], rfl, .inr ⟨by simp [hl], rfl⟩⟩
    · obtain ⟨front, hls, hfront⟩ := h
      cases front with
      | nil => simp [hnil] at hfront
      | cons m front =>
          obtain ⟨rfl, rfl⟩ : l = m ∧ ls = front ++ rest := by simpa using hls
          rw [List.map_cons, hl] at hfront
          rcases hfront with hfront | ⟨hfront, rfl⟩
          · exact absurd hfront (hk _ _)
          · obtain rfl : front = [] := by simpa using hfront
            rfl
  · rw [if_neg hhead, hr stop ls a rest trivial]
    refine ⟨fun hread => ?_, fun hread => ?_⟩
    · obtain ⟨front, hls, hfront⟩ := hread
      exact ⟨front, hls, .inl hfront⟩
    · obtain ⟨front, rfl, hfront | ⟨hfront, rfl⟩⟩ := hread
      · exact ⟨front, rfl, hfront⟩
      · cases front with
        | nil => simp at hfront
        | cons l front => simp_all

/-- Numbers of descriptors are read as they are written. -/
theorem accepts_descriptorCount : descriptorCount.Accepts anyToken Count := by
  have h := (accepts_uint.map (f := DescriptorCount.bounded) (fun ts c => Iff.rfl)).orKeyword
    .unbounded .unbounded (by simp [Number]) (by simp [Number])
  intro stop ls c rest hfollow
  rw [descriptorCount, h stop ls c rest hfollow]
  cases c <;> simp [Count]

theorem accepts_rangeOffset : rangeOffset.Accepts anyToken Offset := by
  have h := (accepts_uint.map (f := RangeOffset.explicit) (fun ts o => Iff.rfl)).orKeyword
    .offsetAppend .append (by simp [Number]) (by simp [Number])
  intro stop ls o rest hfollow
  rw [rangeOffset, h stop ls o rest hfollow]
  cases o <;> simp [Offset]

theorem accepts_visibility : visibility.Accepts anyToken (Word .visibility) :=
  accepts_choice _ fun k v => by cases k <;> simp

theorem accepts_filter : filter.Accepts anyToken (Word .filter) :=
  accepts_choice _ fun k f => by cases k <;> simp

theorem accepts_addressMode : addressMode.Accepts anyToken (Word .addressMode) :=
  accepts_choice _ fun k m => by cases k <;> simp

theorem accepts_comparison : comparison.Accepts anyToken (Word .comparison) :=
  accepts_choice _ fun k c => by cases k <;> simp

theorem accepts_borderColor : borderColor.Accepts anyToken (Word .borderColor) :=
  accepts_choice _ fun k b => by cases k <;> simp

/-! ## Flags -/

section
variable {F : Type} [WrittenFlag F] {dialect : Dialect} {word : Token → F → Prop}

omit [WrittenFlag F] in
/-- A list of flag words is not empty. -/
theorem exists_cons_of_flagWords {ts : List Token} {fs : List F} (h : FlagWords word ts fs) :
    ∃ t ts' f, ts = t :: ts' ∧ word t f := by
  cases h with
  | single hf => exact ⟨_, _, _, rfl, hf⟩
  | cons hf _ => exact ⟨_, _, _, rfl, hf⟩

/-- What is read as flags is flags with bars between them. -/
theorem flagWords_of_runFlagList
    (hword : ∀ l f, WrittenFlag.ofLexeme dialect l = .ok f → word l.token f)
    {canFollow : Token → Bool} {stop : Location} {ls : List Lexeme} {s : FlagSet F}
    {rest : List Lexeme} (h : runFlagList dialect canFollow stop ls = (.ok s, rest)) :
    ∃ front fs, ls = front ++ rest ∧ FlagWords word (front.map Lexeme.token) fs ∧
      s = .ofList fs := by
  fun_induction runFlagList (F := F) dialect canFollow stop ls generalizing s with
  | case1 | case2 | case4 | case6 => simp at h
  | case3 l ls f hl _ =>
      obtain ⟨rfl, rfl⟩ : {f} = s ∧ ls = rest := by simpa using h
      exact ⟨[l], [f], rfl, .single (hword l f hl), (FlagSet.ofList_singleton f).symm⟩
  | case5 l f hl bar ls hbar answer rest' hrun _ ih =>
      obtain ⟨hanswer, rfl⟩ : answer.map ({f} ∪ ·) = .ok s ∧ rest' = rest := by simpa using h
      cases answer with
      | error e => cases hanswer
      | ok s' =>
          cases hanswer
          obtain ⟨front, fs, rfl, hfs, rfl⟩ := ih hrun
          refine ⟨l :: bar :: front, f :: fs, rfl, ?_, (FlagSet.ofList_cons f fs).symm⟩
          rw [List.map_cons, List.map_cons, hbar]
          exact .cons (hword l f hl) hfs

/-- Flags with bars between them are read, up to a token that can follow them. -/
theorem runFlagList_of_flagWords
    (hword : ∀ l f, word l.token f → WrittenFlag.ofLexeme dialect l = .ok f)
    {canFollow : Token → Bool} (hbar : canFollow .verticalBar = false) {stop : Location}
    {rest : List Lexeme} (hfollow : canFollow (head stop rest).token = true)
    {ts : List Token} {fs : List F} (h : FlagWords word ts fs) {front : List Lexeme}
    (hts : front.map Lexeme.token = ts) :
    runFlagList dialect canFollow stop (front ++ rest) = (.ok (.ofList fs), rest) := by
  induction h generalizing front with
  | single hf =>
      obtain ⟨l, rfl, rfl⟩ := List.map_eq_singleton_iff.1 hts
      rw [List.singleton_append, runFlagList_last (hword l _ hf) hfollow,
        FlagSet.ofList_singleton]
  | @cons t f ts fs hf _ ih =>
      obtain ⟨l, front', rfl, rfl, hts'⟩ := List.map_eq_cons_iff.1 hts
      obtain ⟨bar, front, rfl, hbar', hfront⟩ := List.map_eq_cons_iff.1 hts'
      rw [List.cons_append, List.cons_append, runFlagList_more (hword l _ hf) hbar' hbar, ih hfront,
        FlagSet.ofList_cons]
      rfl

/-- Flags are read up to a token that can follow them. -/
theorem accepts_flags
    (hword : ∀ l f, WrittenFlag.ofLexeme dialect l = .ok f ↔ word l.token f)
    (huint : ∀ n f, ¬ word (.uint n) f)
    {canFollow : Token → Bool} (hbar : canFollow .verticalBar = false) :
    (flags dialect canFollow : Reader (FlagSet F)).Accepts (canFollow · = true)
      (Flags word) := by
  intro stop ls s rest hfollow
  rw [run_flags]
  refine ⟨fun h => ?_, fun h => ?_⟩
  · split at h
    · next n hn =>
        obtain ⟨l, ls, rfl, hl⟩ := exists_cons_of_head hn (by simp)
        split at h
        · next hzero =>
            obtain ⟨rfl, rfl⟩ : ∅ = s ∧ ls = rest := by simpa using h
            refine ⟨[l], rfl, ?_⟩
            rw [List.map_singleton, hl, hzero]
            exact .zero
        · simp at h
    · obtain ⟨front, fs, hls, hfs, rfl⟩ := flagWords_of_runFlagList (fun l f => (hword l f).1) h
      exact ⟨front, hls, .words hfs⟩
  · obtain ⟨front, rfl, hfront⟩ := h
    generalize hts : front.map Lexeme.token = ts at hfront
    cases hfront with
    | zero =>
        obtain ⟨l, rfl, hl⟩ := List.map_eq_singleton_iff.1 hts
        simp [hl]
    | words hfs =>
        obtain ⟨t, ts', f, rfl, hf⟩ := exists_cons_of_flagWords hfs
        have hrun := runFlagList_of_flagWords (fun l f => (hword l f).2) hbar hfollow hfs hts
        obtain ⟨l, front, rfl, rfl, -⟩ := List.map_eq_cons_iff.1 hts
        split
        · next n hn =>
            rw [List.cons_append, head_cons] at hn
            exact absurd (hn ▸ hf) (huint n f)
        · exact hrun

end

/-! ## Items -/

/-- A token that ends an item. -/
def endsItem (t : Token) : Prop := t = .comma ∨ t = .rightParen

/-- Items are read by a rule: each first token starts either no item, or the items of the rule that
start with it, and these fill the slot that the reader expects. -/
structure ItemsAccept (item? : Token → Option (Item α)) (rule : Rule α) (slot? : α → Option Slot) :
    Prop where
  eof : item? .eof = none
  ne_nil : ∀ a, ¬ rule [] a
  refused : ∀ t ts a, item? t = none → ¬ rule (t :: ts) a
  accepted : ∀ t item, item? t = some item → item.read.AcceptsAt t endsItem rule
  slot : ∀ t item ts a, item? t = some item → rule (t :: ts) a → item.slot? = slot? a

/-- The items fill no slot twice, and none that has been filled before. -/
def Room (slot? : α → Option Slot) (filled : List Slot) (as : List α) : Prop :=
  (as.filterMap slot?).Nodup ∧ ∀ a ∈ as, ∀ s ∈ slot? a, s ∉ filled

section
variable {item? : Token → Option (Item α)} {rule : Rule α} {slot? : α → Option Slot}
  {stop : Location} {filled : List Slot} {ls rest : List Lexeme}

@[simp] theorem room_nil : Room slot? filled [] := by
  simp [Room]

/-- There is room for an item and more if there is room for the item, and then still for the
others. -/
theorem room_cons {a : α} {as : List α} :
    Room slot? filled (a :: as) ↔
      (∀ s ∈ slot? a, s ∉ filled) ∧ Room slot? ((slot? a).toList ++ filled) as := by
  unfold Room
  cases hs : slot? a with
  | none => simp [List.filterMap_cons_none hs, hs]
  | some s =>
      rw [List.filterMap_cons_some hs, List.nodup_cons]
      refine ⟨fun h => ?_, fun h => ?_⟩
      · obtain ⟨⟨hmem, hnodup⟩, hfilled⟩ := h
        refine ⟨fun s' hs' => hfilled a (List.mem_cons_self ..) s' (hs ▸ hs'), hnodup, ?_⟩
        intro b hb s' hs' hin
        rcases List.mem_append.1 hin with hin | hin
        · obtain rfl : s' = s := by simpa using hin
          exact hmem (List.mem_filterMap.2 ⟨b, hb, hs'⟩)
        · exact hfilled b (List.mem_cons_of_mem _ hb) s' hs' hin
      · obtain ⟨ha, hnodup, has⟩ := h
        refine ⟨⟨fun hmem => ?_, hnodup⟩, ?_⟩
        · obtain ⟨b, hb, hbs⟩ := List.mem_filterMap.1 hmem
          exact has b hb s hbs (by simp)
        · intro b hb s' hs' hin
          rcases List.mem_cons.1 hb with rfl | hb
          · exact ha s' (hs ▸ hs') hin
          · exact has b hb s' hs' (List.mem_append_right _ hin)

/-- An item that has been read is an item of the rule, and there was room for it. -/
theorem ItemsAccept.of_read (h : ItemsAccept item? rule slot?) {item : Item α} {a : α}
    (hitem : item? (head stop ls).token = some item)
    (hfilled : item.slot?.filter (· ∈ filled) = none)
    (hread : item.read.run stop ls = (.ok a, rest)) (hend : endsItem (head stop rest).token) :
    ∃ front, ls = front ++ rest ∧ rule (front.map Lexeme.token) a ∧ item.slot? = slot? a ∧
      ∀ s ∈ slot? a, s ∉ filled := by
  cases ls with
  | nil =>
      rw [head_nil] at hitem
      cases h.eof.symm.trans hitem
  | cons l ls =>
      obtain ⟨front, rfl, hfront⟩ := (h.accepted _ item hitem stop l ls a rest rfl hend).1 hread
      have hslot := h.slot _ item _ a hitem hfront
      refine ⟨l :: front, rfl, hfront, hslot, fun s hs hmem => ?_⟩
      rw [hslot, hs] at hfilled
      simp [hmem] at hfilled

/-- What is read as items is items with commas between them, and a closing parenthesis. -/
theorem ItemsAccept.commaList_of_runItems (h : ItemsAccept item? rule slot?) {as : List α}
    {close : Lexeme} (hrun : runItems item? stop filled ls = (.ok (as, close), rest)) :
    ∃ front, ls = front ++ close :: rest ∧ close.token = .rightParen ∧
      CommaList rule (front.map Lexeme.token) as ∧ Room slot? filled as := by
  fun_induction runItems item? stop filled ls generalizing as with
  | case1 | case2 | case3 | case4 | case7 => simp at hrun
  | case5 filled ls head' item hitem hfilled a separator rest' hread =>
      have hclose := ‹separator.token = .rightParen›
      obtain ⟨⟨rfl, rfl⟩, rfl⟩ : ([a] = as ∧ separator = close) ∧ rest' = rest := by
        simpa using hrun
      obtain ⟨front, rfl, hfront, -, hslot⟩ := h.of_read hitem hfilled hread (.inr hclose)
      exact ⟨front, rfl, hclose, .single hfront, room_cons.2 ⟨hslot, room_nil⟩⟩
  | case6 filled ls head' item hitem hfilled a separator rest' hread hcomma answer rest'' hrec =>
      rename_i ih
      obtain ⟨hanswer, rfl⟩ := Prod.mk.inj hrun
      cases answer with
      | error e => cases hanswer
      | ok answer =>
          obtain ⟨as', close'⟩ := answer
          cases hanswer
          obtain ⟨front', rfl, hclose, hlist, hroom⟩ := ih hrec
          obtain ⟨front, rfl, hfront, hitemSlot, hslot⟩ :=
            h.of_read hitem hfilled hread (.inl hcomma)
          rw [hitemSlot] at hroom
          refine ⟨front ++ separator :: front', by simp, hclose, ?_, room_cons.2 ⟨hslot, hroom⟩⟩
          rw [List.map_append, List.map_cons, hcomma]
          exact .cons hfront hlist

/-- An item of the rule starts with a token of an item, which is read to the item's end. -/
theorem ItemsAccept.read_of (h : ItemsAccept item? rule slot?) (stop : Location)
    (rest : List Lexeme) {front : List Lexeme} {a : α}
    (hfront : rule (front.map Lexeme.token) a) (hend : endsItem (head stop rest).token) :
    ∃ item, item? (head stop (front ++ rest)).token = some item ∧ item.slot? = slot? a ∧
      item.read.run stop (front ++ rest) = (.ok a, rest) := by
  cases front with
  | nil => exact absurd hfront (h.ne_nil a)
  | cons l front =>
      rw [List.map_cons] at hfront
      cases hitem : item? l.token with
      | none => exact absurd hfront (h.refused _ _ _ hitem)
      | some item =>
          exact ⟨item, hitem, h.slot _ _ _ _ hitem hfront,
            (h.accepted _ item hitem stop l _ a rest rfl hend).2 ⟨front, rfl, hfront⟩⟩

/-- Items with commas between them are read up to the closing parenthesis, if there is room. -/
theorem ItemsAccept.runItems_of_commaList (h : ItemsAccept item? rule slot?) {close : Lexeme}
    (hclose : close.token = .rightParen) {ts : List Token} {as : List α}
    (hlist : CommaList rule ts as) {front : List Lexeme} (hts : front.map Lexeme.token = ts)
    (hroom : Room slot? filled as) :
    runItems item? stop filled (front ++ close :: rest) = (.ok (as, close), rest) := by
  induction hlist generalizing front filled with
  | single ha =>
      subst hts
      obtain ⟨item, hitem, hslot, hread⟩ :=
        h.read_of stop (close :: rest) ha (.inr hclose)
      rw [room_cons, ← hslot] at hroom
      exact runItems_last hitem hroom.1 hread hclose
  | @cons ts ts' a as ha _ ih =>
      obtain ⟨front₁, front₂, rfl, rfl, hts'⟩ := List.map_eq_append_iff.1 hts
      obtain ⟨comma, front₃, rfl, hcomma, hfront⟩ := List.map_eq_cons_iff.1 hts'
      obtain ⟨item, hitem, hslot, hread⟩ :=
        h.read_of stop (comma :: (front₃ ++ close :: rest)) ha (.inl hcomma)
      rw [room_cons, ← hslot] at hroom
      rw [List.append_assoc, List.cons_append, runItems_more hitem hroom.1 hread hcomma,
        ih hfront hroom.2]
      rfl

/-- Reading items accepts the lists of items with commas between them for which there is room. -/
theorem ItemsAccept.runItems_eq_ok_iff (h : ItemsAccept item? rule slot?) {as : List α}
    {close : Lexeme} :
    runItems item? stop filled ls = (.ok (as, close), rest) ↔
      ∃ front, ls = front ++ close :: rest ∧ close.token = .rightParen ∧
        CommaList rule (front.map Lexeme.token) as ∧ Room slot? filled as := by
  refine ⟨h.commaList_of_runItems, fun hlist => ?_⟩
  obtain ⟨front, rfl, hclose, hlist, hroom⟩ := hlist
  exact h.runItems_of_commaList hclose hlist rfl hroom

end

end RootSignature.Reader
