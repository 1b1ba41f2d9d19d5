import RootSignature.Proofs.Grammar.Accepted
import RootSignature.Proofs.Reader.Compositional

/-!
# What errors blame

Every error of a reader blames one lexeme of the list, or the end behind it, and says something
true about it (`Reason.Fits`). `Blame` holds of an error and of what is left of the list: most
errors take the lexeme that they blame, but some are noticed before it is taken, and then it is
still there.

`blame_of_readDeclarations` is the main result. It is put together from what the single readers do
(`Reader.Blames`), or do if the token that they start with is known (`Reader.BlamesAt`).
-/

namespace RootSignature

open Reader

variable {α β : Type} {dialect : Dialect} {stop : Location}

/-- What a reason says of the lexeme that is refused. -/
def Reason.Fits (dialect : Dialect) (l : Lexeme) : Reason → Prop
  | unexpectedToken found => found = l.text
  | unexpectedDeclaration found => found = l.text
  | expectedComma found => found = l.text
  | rootFlagsRedefined => l.token = .keyword (.opening .rootFlags)
  | duplicateParameter name => ∃ slot : Slot, name = slot.label
  | missingParameter _ => l.token = .rightParen
  | invalidFlagNumber _ found => found = l.text ∧ ∃ n, n ≠ 0 ∧ l.token = .uint n
  | expectedFlag _ found => found = l.text
  | flagsNotSupported family version =>
    dialect.version = .v1_0 ∧ version = .v1_0 ∧ family ≠ .rootSignature ∧
      l.token = .keyword (.parameter .flags)
  | localFlagInGlobalSignature =>
    dialect.isGlobal ∧ l.token = .keyword (.rootFlag .localRootSignature)
  | incorrectRegisterClass found expected =>
    found = l.text ∧ ∃ r, l.token = .register r ∧ r.registerClass ≠ expected
  | expectedFloat found => found = l.text
  | unexpectedValue _ found => found = l.text
  | expectedRegister _ | conversionFailed _ | unparsed _ => False

/-- The reason is noticed before the lexeme is taken, and only then. -/
def Reason.isAhead : Reason → Bool
  | unexpectedDeclaration _ | rootFlagsRedefined | duplicateParameter _
  | flagsNotSupported _ _ => true
  | _ => false

/-- An error blames a lexeme of a list, or its end, and reading can go on with what is left. -/
inductive Blame (dialect : Dialect) (stop : Location) (ls : List Lexeme) :
    ParseError → List Lexeme → Prop
  /-- The lexeme is blamed and is still there. -/
  | ahead {reason : Reason} {rest : List Lexeme} :
      rest <:+ ls → reason.Fits dialect (head stop rest) →
      (reason.isAhead ∨ reason = .unexpectedToken (head stop rest).text) →
      Blame dialect stop ls (.atLexeme reason (head stop rest)) rest
  /-- The lexeme is blamed and has been taken. -/
  | taken {reason : Reason} {l : Lexeme} {rest : List Lexeme} :
      l :: rest <:+ ls → reason.Fits dialect l → reason.isAhead = false →
      Blame dialect stop ls (.atLexeme reason l) rest
  /-- The end is blamed, and all has been taken. -/
  | atEnd {reason : Reason} :
      reason.Fits dialect (.endAt stop) → reason.isAhead = false →
      Blame dialect stop ls (.atLexeme reason (.endAt stop)) []

/-- What is blamed in a part of a list that goes up to its end is blamed in the list. -/
theorem Blame.mono {ls ls' rest : List Lexeme} {e : ParseError} (h : Blame dialect stop ls' e rest)
    (hsuffix : ls' <:+ ls) : Blame dialect stop ls e rest := by
  cases h with
  | ahead hrest hfits hahead => exact .ahead (hrest.trans hsuffix) hfits hahead
  | taken hrest hfits htaken => exact .taken (hrest.trans hsuffix) hfits htaken
  | atEnd hfits htaken => exact .atEnd hfits htaken

/-- The lexeme that is next is blamed and taken. -/
theorem Blame.next {reason : Reason} {ls : List Lexeme} (hfits : reason.Fits dialect (head stop ls))
    (htaken : reason.isAhead = false) :
    Blame dialect stop ls (.atLexeme reason (head stop ls)) ls.tail := by
  cases ls with
  | nil => exact .atEnd hfits htaken
  | cons l ls => exact .taken List.suffix_rfl hfits htaken

/-- An error is about a lexeme of a list or about its end. -/
def ParseError.Within (stop : Location) (ls : List Lexeme) (e : ParseError) : Prop :=
  ∃ reason l, l ∈ ls ++ [.endAt stop] ∧ e = .atLexeme reason l

/-- The reason of an error fits a lexeme of the list, or its end. -/
theorem Blame.fits {ls rest : List Lexeme} {e : ParseError} (h : Blame dialect stop ls e rest) :
    ∃ reason l, l ∈ ls ++ [.endAt stop] ∧ e = .atLexeme reason l ∧ reason.Fits dialect l := by
  cases h with
  | @ahead reason rest hrest hfits =>
      refine ⟨reason, _, ?_, rfl, hfits⟩
      cases rest with
      | nil => exact List.mem_append_right _ (List.mem_singleton.2 rfl)
      | cons l rest => exact List.mem_append_left _ (hrest.mem (List.mem_cons_self ..))
  | taken hrest hfits =>
      exact ⟨_, _, List.mem_append_left _ (hrest.mem (List.mem_cons_self ..)), rfl, hfits⟩
  | atEnd hfits => exact ⟨_, _, List.mem_append_right _ (List.mem_singleton.2 rfl), rfl, hfits⟩

/-- The blamed lexeme is one of the list, or its end. -/
theorem Blame.within {ls rest : List Lexeme} {e : ParseError} (h : Blame dialect stop ls e rest) :
    e.Within stop ls := by
  obtain ⟨reason, l, hl, he, -⟩ := h.fits
  exact ⟨reason, l, hl, he⟩

/-- An error about a part of a list that goes up to its end is one about the list. -/
theorem ParseError.Within.mono {ls ls' : List Lexeme} {e : ParseError} (h : e.Within stop ls')
    (hsuffix : ls' <:+ ls) : e.Within stop ls := by
  obtain ⟨reason, l, hl, rfl⟩ := h
  refine ⟨reason, l, ?_, rfl⟩
  rcases List.mem_append.1 hl with hl | hl
  · exact List.mem_append_left _ (hsuffix.mem hl)
  · exact List.mem_append_right _ hl

namespace Reader

/-! ## Combining readers -/

/-- All errors of the reader are blamed on lexemes that it is given. -/
def Blames (dialect : Dialect) (r : Reader α) : Prop :=
  ∀ stop ls e rest, r.run stop ls = (.error e, rest) → Blame dialect stop ls e rest

/-- From a token on, all errors of the reader are blamed on lexemes that it is given. -/
def BlamesAt (dialect : Dialect) (t : Token) (r : Reader α) : Prop :=
  ∀ stop l ls e rest, l.token = t → r.run stop (l :: ls) = (.error e, rest) →
    Blame dialect stop (l :: ls) e rest

/-- Readers one after the other blame what they are given. -/
theorem Blames.bind {r : Reader α} {f : α → Reader β} (hr : r.Blames dialect)
    (hf : ∀ a, (f a).Blames dialect) : (r >>= f).Blames dialect := by
  intro stop ls e rest h
  rcases run_bind_eq_error_iff.1 h with hfirst | ⟨a, rest', hfirst, hsecond⟩
  · exact hr stop ls e rest hfirst
  · exact (hf a stop rest' e rest hsecond).mono (suffix_of_run hfirst)

/-- What is made of a result does not change what is blamed. -/
theorem Blames.map {r : Reader α} (hr : r.Blames dialect) (f : α → β) :
    (f <$> r).Blames dialect := by
  intro stop ls e rest h
  exact hr stop ls e rest (run_map_eq_error_iff.1 h)

theorem BlamesAt.map {r : Reader α} {t : Token} (hr : r.BlamesAt dialect t) (f : α → β) :
    (f <$> r).BlamesAt dialect t := by
  intro stop l ls e rest hl h
  exact hr stop l ls e rest hl (run_map_eq_error_iff.1 h)

theorem blames_pure (a : α) : (pure a : Reader α).Blames dialect := by
  intro stop ls e rest h
  cases h

/-! ## Values -/

/-- A reader of one lexeme blames that lexeme, if its reasons fit. -/
theorem blames_take {f : Lexeme → Except Reason α}
    (hf : ∀ l reason, f l = .error reason → reason.Fits dialect l ∧ reason.isAhead = false) :
    (take f).Blames dialect := by
  intro stop ls e rest h
  rw [run_take] at h
  cases hl : f (head stop ls) with
  | ok a => simp [hl] at h
  | error reason =>
      obtain ⟨rfl, rfl⟩ : .atLexeme reason (head stop ls) = e ∧ ls.tail = rest := by
        simpa [hl] using h
      obtain ⟨hfits, htaken⟩ := hf _ reason hl
      exact .next hfits htaken

/-- A reader of an expected token blames what it is given. -/
theorem blames_expect (t : Token) : (expect t).Blames dialect := by
  rw [expect_eq_take]
  refine blames_take fun l reason h => ?_
  split at h
  · cases h
  · cases h
    exact ⟨rfl, rfl⟩

theorem blames_uint : uint.Blames dialect := by
  rw [uint_eq_take]
  refine blames_take fun l reason h => ?_
  split at h
  · cases h
  · cases h
    exact ⟨rfl, rfl⟩

theorem blames_float : float.Blames dialect := by
  rw [float_eq_take]
  refine blames_take fun l reason h => ?_
  split at h
  · cases h
  · cases h
  · cases h
  · cases h
    exact ⟨rfl, rfl⟩

theorem blames_choice (kind : ValueKind) (value? : Keyword → Option α) :
    (choice kind value?).Blames dialect := by
  rw [choice_eq_take]
  refine blames_take fun l reason h => ?_
  split at h
  · cases h
  · cases h
    exact ⟨rfl, rfl⟩

/-- A register is refused for its class only, if there is a register. -/
theorem blamesAt_register (c : RegisterClass) (r : RootSignature.Register) :
    (register c).BlamesAt dialect (.register r) := by
  intro stop l ls e rest hl h
  rw [register_eq_take, run_take, head_cons, hl] at h
  dsimp only at h
  by_cases hc : r.registerClass = c
  · simp [hc] at h
  · rw [if_neg hc] at h
    cases h
    exact .taken List.suffix_rfl ⟨rfl, r, hl, hc⟩ rfl

/-- A keyword in place of a value leaves nothing else to blame. -/
theorem Blames.orKeyword {r : Reader α} (hr : r.Blames dialect) (k : Keyword) (instead : α) :
    (Reader.orKeyword k instead r).Blames dialect := by
  intro stop ls e rest h
  rw [Reader.orKeyword, run_bind, run_peek] at h
  dsimp only at h
  split at h
  · cases h
  · exact hr stop ls e rest h

/-- After the name of a parameter, what is blamed is what should be an equals sign, or it lies in
the value. -/
theorem Blames.assigned {value : Reader α} (hvalue : value.Blames dialect) (t : Token) :
    (assigned value).BlamesAt dialect t := by
  intro stop l ls e rest _ h
  rw [run_assigned] at h
  have hblame := (blames_expect .equals).bind (fun _ => hvalue) stop ls e rest h
  exact hblame.mono (List.suffix_cons l ls)

/-! ## Flags -/

section
variable {F : Type} [WrittenFlag F]

/-- A lexeme that is no flag, or a flag that a global signature may not have, is refused as such. -/
theorem fits_of_ofLexeme_eq_error {l : Lexeme} {reason : Reason}
    (h : (WrittenFlag.ofLexeme dialect l : Except Reason F) = .error reason) :
    reason.Fits dialect l ∧ reason.isAhead = false := by
  unfold WrittenFlag.ofLexeme at h
  cases hl : l.token with
  | keyword k =>
      rw [hl] at h
      dsimp only at h
      split at h
      · cases h
        exact ⟨rfl, rfl⟩
      · split at h
        · next hlocal =>
            cases h
            exact ⟨⟨hlocal.2, hl.trans hlocal.1⟩, rfl⟩
        · cases h
  | _ =>
      rw [hl] at h
      cases h
      exact ⟨rfl, rfl⟩

/-- A list of flags blames what it is given. -/
theorem blame_of_runFlagList {canFollow : Token → Bool} {ls rest : List Lexeme} {e : ParseError}
    (h : runFlagList (F := F) dialect canFollow stop ls = (.error e, rest)) :
    Blame dialect stop ls e rest := by
  fun_induction runFlagList (F := F) dialect canFollow stop ls with
  | case1 =>
      cases h
      exact .atEnd rfl rfl
  | case2 l ls reason hl =>
      cases h
      obtain ⟨hfits, htaken⟩ := fits_of_ofLexeme_eq_error hl
      exact .taken List.suffix_rfl hfits htaken
  | case3 => cases h
  | case4 =>
      cases h
      exact .atEnd rfl rfl
  | case5 l f hl bar ls hbar answer rest' hrun _ ih =>
      obtain ⟨hanswer, rfl⟩ : answer.map ({f} ∪ ·) = .error e ∧ rest' = rest := by simpa using h
      have hsuffix : ls <:+ l :: bar :: ls := (List.suffix_cons bar ls).trans (List.suffix_cons l _)
      cases answer with
      | error e' =>
          cases hanswer
          exact (ih hrun).mono hsuffix
      | ok fs => cases hanswer
  | case6 l f hl bar ls =>
      cases h
      exact .taken (List.suffix_cons l _) rfl rfl

theorem blames_afterFlag (canFollow : Token → Bool) (f : F) :
    (afterFlag dialect canFollow f).Blames dialect := by
  intro stop ls e rest h
  rw [run_afterFlag] at h
  split at h
  · cases h
  · have hlist : (flagList dialect canFollow : Reader (FlagSet F)).Blames dialect :=
      fun _ _ _ _ => blame_of_runFlagList
    exact (blames_expect .verticalBar).bind (fun _ => hlist.map _) stop ls e rest h

/-- Flags blame what they are given, the zero among them. -/
theorem blames_flags (canFollow : Token → Bool) :
    (flags dialect canFollow : Reader (FlagSet F)).Blames dialect := by
  intro stop ls e rest h
  rw [run_flags] at h
  split at h
  · next n hn =>
      split at h
      · cases h
      · next hzero =>
          cases h
          exact .next ⟨rfl, n, hzero, hn⟩ rfl
  · exact blame_of_runFlagList h

/-- The flags of a parameter are refused in version 1.0, and there at their name. -/
theorem blamesAt_parameterFlags (hfamily : WrittenFlag.family F ≠ .rootSignature) :
    (parameterFlags dialect : Reader (FlagSet F)).BlamesAt dialect
      (.keyword (.parameter .flags)) := by
  unfold parameterFlags
  cases hversion : dialect.version with
  | v1_0 =>
      intro stop l ls e rest hl h
      cases h
      exact .ahead List.suffix_rfl ⟨hversion, rfl, hfamily, hl⟩ (.inl rfl)
  | v1_1 => exact (blames_flags canFollowParameter).assigned _

end

/-- After the opening word, the flags of the whole signature blame what they are given. -/
theorem blamesAt_rootFlags (t : Token) : (rootFlags dialect).BlamesAt dialect t := by
  intro stop l ls e rest _ h
  have hrest : (expect .leftParen >>= fun _ => (flags dialect (· = .rightParen) : Reader
      (FlagSet RootFlag)) >>= fun fs => expect .rightParen >>= fun _ => pure fs).Blames dialect :=
    (blames_expect _).bind fun _ => (blames_flags _).bind fun fs =>
      (blames_expect _).bind fun _ => blames_pure fs
  exact (hrest stop ls e rest h).mono (List.suffix_cons l ls)

/-! ## Items -/

/-- From the token that it starts with, each item blames what it is given. The end starts none. -/
structure ItemsBlame (dialect : Dialect) (item? : Token → Option (Item α)) : Prop where
  eof : item? .eof = none
  read : ∀ t item, item? t = some item → item.read.BlamesAt dialect t

/-- An item that is read blames what it is given. -/
theorem ItemsBlame.blame_of_read {item? : Token → Option (Item α)} (h : ItemsBlame dialect item?)
    {item : Item α} {ls rest : List Lexeme} {e : ParseError}
    (hitem : item? (head stop ls).token = some item)
    (hread : item.read.run stop ls = (.error e, rest)) : Blame dialect stop ls e rest := by
  cases ls with
  | nil =>
      rw [head_nil] at hitem
      cases h.eof.symm.trans hitem
  | cons l ls => exact h.read _ item hitem stop l ls e rest rfl hread

/-- A list of items blames what it is given. -/
theorem ItemsBlame.blame_of_runItems {item? : Token → Option (Item α)}
    (h : ItemsBlame dialect item?) {filled : List Slot} {ls rest : List Lexeme} {e : ParseError}
    (hrun : runItems item? stop filled ls = (.error e, rest)) : Blame dialect stop ls e rest := by
  fun_induction runItems item? stop filled ls with
  | case1 filled ls =>
      cases hrun
      exact .ahead List.suffix_rfl rfl (.inr rfl)
  | case2 filled ls head' item hitem slot =>
      cases hrun
      exact .ahead List.suffix_rfl ⟨slot, rfl⟩ (.inl rfl)
  | case3 filled ls head' item hitem _ e' rest' hread =>
      cases hrun
      exact h.blame_of_read hitem hread
  | case4 =>
      cases hrun
      exact .atEnd rfl rfl
  | case5 => cases hrun
  | case6 filled ls head' item hitem _ a separator rest' hread _ answer rest'' hrec =>
      rename_i ih
      obtain ⟨hanswer, rfl⟩ := Prod.mk.inj hrun
      have hsuffix := suffix_of_run hread
      cases answer with
      | error e' =>
          cases hanswer
          exact (ih hrec).mono ((List.suffix_cons separator rest').trans hsuffix)
      | ok answer => cases hanswer
  | case7 filled ls head' item hitem _ a separator rest' hread =>
      cases hrun
      have hsuffix := suffix_of_run hread
      exact .taken hsuffix rfl rfl

/-- A list of items ends right behind its closing parenthesis. -/
theorem close_of_runItems {item? : Token → Option (Item α)} {filled : List Slot}
    {ls rest : List Lexeme} {as : List α} {close : Lexeme}
    (hrun : runItems item? stop filled ls = (.ok (as, close), rest)) :
    close :: rest <:+ ls ∧ close.token = .rightParen := by
  fun_induction runItems item? stop filled ls generalizing as with
  | case1 | case2 | case3 | case4 | case7 => cases hrun
  | case5 filled ls head' item hitem _ a separator rest' hread =>
      have hclose := ‹separator.token = .rightParen›
      cases hrun
      have hsuffix := suffix_of_run hread
      exact ⟨hsuffix, hclose⟩
  | case6 filled ls head' item hitem _ a separator rest' hread _ answer rest'' hrec =>
      rename_i ih
      obtain ⟨hanswer, rfl⟩ := Prod.mk.inj hrun
      have hsuffix := suffix_of_run hread
      cases answer with
      | error e => cases hanswer
      | ok answer =>
          obtain ⟨as', close'⟩ := answer
          cases hanswer
          obtain ⟨hclose, htoken⟩ := ih hrec
          exact ⟨hclose.trans ((List.suffix_cons separator rest').trans hsuffix), htoken⟩

/-- What comes after an item takes lexemes from the list and blames lexemes of it, and the list of
items closes within it. -/
theorem ItemsBlame.afterItem {item? : Token → Option (Item α)} (h : ItemsBlame dialect item?)
    (filled : List Slot) (a : α) (ls : List Lexeme) :
    (afterItem item? stop filled a ls).2 <:+ ls ∧
      (∀ e, (afterItem item? stop filled a ls).1 = .error e → e.Within stop ls) ∧
      ∀ as close rest, afterItem item? stop filled a ls = (.ok (as, close), rest) →
        close ∈ ls := by
  cases ls with
  | nil =>
      refine ⟨List.suffix_rfl, fun e he => ?_, fun as close rest hok => by cases hok⟩
      cases he
      exact ⟨_, _, List.mem_singleton.2 rfl, rfl⟩
  | cons separator ls =>
      have hsuffix : ls <:+ separator :: ls := List.suffix_cons separator ls
      rw [afterItem_cons]
      split
      · refine ⟨hsuffix, fun e he => (by cases he), fun as close rest hok => ?_⟩
        cases hok
        exact List.mem_cons_self ..
      · have hrest := runItems_suffix item? stop filled ls
        have herror (e : ParseError) (rest : List Lexeme)
            (he : runItems item? stop filled ls = (.error e, rest)) : e.Within stop ls :=
          (h.blame_of_runItems he).within
        have hclose (as : List α) (close : Lexeme) (rest : List Lexeme)
            (hok : runItems item? stop filled ls = (.ok (as, close), rest)) : close ∈ ls :=
          (close_of_runItems hok).1.mem (List.mem_cons_self ..)
        generalize runItems item? stop filled ls = outcome at hrest herror hclose ⊢
        obtain ⟨answer, rest⟩ := outcome
        cases answer with
        | error e =>
            refine ⟨hrest.trans hsuffix, fun e' he => ?_, fun as close rest hok => by cases hok⟩
            cases he
            exact (herror e rest rfl).mono hsuffix
        | ok answer =>
            refine ⟨hrest.trans hsuffix, fun e he => (by cases he), fun as close rest' hok => ?_⟩
            obtain ⟨as', close'⟩ := answer
            cases hok
            exact List.mem_cons_of_mem _ (hclose as' close rest rfl)
      · refine ⟨hsuffix, fun e he => ?_, fun as close rest hok => by cases hok⟩
        cases he
        exact ⟨_, _, List.mem_append_left _ (List.mem_cons_self ..), rfl⟩

/-- What is missing in a construct is blamed on its closing parenthesis. -/
theorem ItemsBlame.inParens {item? : Token → Option (Item α)} (h : ItemsBlame dialect item?)
    (ofItems : List α → Except RequiredParameter β) :
    (Reader.inParens item? ofItems).Blames dialect := by
  intro stop ls e rest hrun
  rw [Reader.inParens] at hrun
  rcases run_bind_eq_error_iff.1 hrun with hparen | ⟨paren, rest₁, hparen, hbody⟩
  · exact blames_expect .leftParen stop ls e rest hparen
  · have hsuffix : rest₁ <:+ ls := suffix_of_run hparen
    rcases run_bind_eq_error_iff.1 hbody with hlist | ⟨⟨as, close⟩, rest₂, hlist, hmade⟩
    · exact (h.blame_of_runItems hlist).mono hsuffix
    · obtain ⟨hclose, htoken⟩ := close_of_runItems hlist
      dsimp only at hmade
      cases hitems : ofItems as with
      | ok b =>
          rw [hitems] at hmade
          cases hmade
      | error missing =>
          rw [hitems] at hmade
          cases hmade
          exact .taken (hclose.trans hsuffix) htoken rfl

/-- After its opening word, a construct blames what it is given. -/
theorem ItemsBlame.construct {item? : Token → Option (Item α)} (h : ItemsBlame dialect item?)
    (ofItems : List α → Except RequiredParameter β) (t : Token) :
    (construct item? ofItems).BlamesAt dialect t := by
  intro stop l ls e rest _ hrun
  rw [run_construct] at hrun
  exact (h.inParens ofItems stop ls e rest hrun).mono (List.suffix_cons l ls)

end Reader

/-! ## Constructs -/

/-- All readers blame what they are given if those of single values do. -/
theorem Reader.blames_compositional : Compositional dialect (fun _ r => r.Blames dialect)
    (fun _ t r => r.BlamesAt dialect t) where
  uint := blames_uint
  float := blames_float
  choice := blames_choice
  orKeyword k instead hr := hr.orKeyword k instead
  mapValue f hr := hr.map f
  register := blamesAt_register
  assigned t hr := hr.assigned t
  parameterFlags := blamesAt_parameterFlags
  rootFlags := blamesAt_rootFlags
  construct ofItems t hname hread := ItemsBlame.construct ⟨eof_of_isName hname, hread⟩ ofItems t
  map f hr := hr.map f

/-- The items of a descriptor blame what they are given. -/
theorem DescriptorItem.itemsBlame (type : DescriptorType) :
    ItemsBlame dialect (ofToken? dialect type) :=
  ⟨rfl, blames_compositional.descriptorItem type⟩

theorem RangeItem.itemsBlame (type : RangeType) : ItemsBlame dialect (ofToken? dialect type) :=
  ⟨rfl, blames_compositional.rangeItem type⟩

theorem TableItem.itemsBlame : ItemsBlame dialect (ofToken? dialect) :=
  ⟨rfl, blames_compositional.tableItem⟩

/-! ## Declarations -/

/-- After its opening word, a declaration blames what it is given. -/
theorem Declaration.blamesAt {t : Token} {reader : Reader Declaration}
    (h : ofToken? dialect t = some reader) : reader.BlamesAt dialect t :=
  blames_compositional.declaration h

/-- The error that stops the reading of declarations is blamed on a lexeme, and what is left is what
reading can go on with. -/
theorem blame_of_readDeclarations {flagsDeclared : Bool} {ls : List Lexeme} {e : ParseError}
    (h : (readDeclarations dialect stop flagsDeclared ls).failure? = some e) :
    Blame dialect stop ls e (readDeclarations dialect stop flagsDeclared ls).rest := by
  fun_induction readDeclarations dialect stop flagsDeclared ls with
  | case1 => cases h
  | case2 flagsDeclared first ls hfirst =>
      cases h
      exact .ahead List.suffix_rfl hfirst.1 (.inl rfl)
  | case3 =>
      cases h
      exact .ahead List.suffix_rfl rfl (.inl rfl)
  | case4 flagsDeclared first ls _ reader hreader e' rest hrun =>
      cases h
      exact Declaration.blamesAt hreader stop first ls e rest rfl hrun
  | case5 => cases h
  | case6 flagsDeclared first ls _ reader _ d separator rest hrun _ reading ih =>
      have hsuffix := suffix_of_run hrun
      exact (ih h).mono ((List.suffix_cons separator rest).trans hsuffix)
  | case7 flagsDeclared first ls _ reader _ d separator rest hrun =>
      cases h
      have hsuffix := suffix_of_run hrun
      exact .taken hsuffix rfl rfl

/-- An error after a declaration blames what follows it. -/
theorem within_of_afterDeclaration {flagsDeclared : Bool} {d : Declaration} {ls : List Lexeme}
    {e : ParseError} (h : (afterDeclaration dialect stop flagsDeclared d ls).failure? = some e) :
    e.Within stop ls := by
  cases ls with
  | nil => cases h
  | cons separator rest =>
      dsimp only [afterDeclaration] at h
      split at h
      · exact (blame_of_readDeclarations h).within.mono (List.suffix_cons separator rest)
      · cases h
        exact ⟨_, _, List.mem_append_left _ (List.mem_cons_self ..), rfl⟩

/-- If an attempt to read a declaration blames some list, so does what comes of it. -/
theorem within_of_afterOutcome {flagsDeclared : Bool} {ls : List Lexeme}
    {outcome : Except ParseError Declaration × List Lexeme} (hrest : outcome.2 <:+ ls)
    (herror : ∀ e, outcome.1 = .error e → e.Within stop ls) {e : ParseError}
    (h : (afterOutcome dialect stop flagsDeclared outcome).failure? = some e) :
    e.Within stop ls := by
  obtain ⟨answer, rest⟩ := outcome
  cases answer with
  | error e' =>
      cases h
      exact herror e rfl
  | ok d => exact (within_of_afterDeclaration h).mono hrest

end RootSignature
