import RootSignature.Proofs.Error.Blame

/-!
# Two texts side by side

What is read goes by the tokens of the lexemes that have been looked at, and by nothing else: not by
their locations, nor by what stands behind them. So two lists that start with the same tokens are
read in lockstep (`Pairing.FollowsWith`): both readings answer the same, or refuse lexemes that go
together, for the same reason, of which each quotes the text of its own lexeme. If the lists are no
longer compared from some point on, the readings may also get that far, and then nothing is said but
that the errors of the first one lie there.

A reader is local (`Reader.Local`) if it keeps in step. `follows_readDeclarations` is the main
result.
-/

namespace RootSignature

open Reader

variable {α β : Type} {dialect : Dialect}

/-- The reason with a text in the place of the one that was found. -/
def Reason.withFound (text : String) : Reason → Reason
  | unexpectedToken _ => unexpectedToken text
  | unexpectedDeclaration _ => unexpectedDeclaration text
  | expectedComma _ => expectedComma text
  | invalidFlagNumber family _ => invalidFlagNumber family text
  | expectedFlag family _ => expectedFlag family text
  | expectedRegister _ => expectedRegister text
  | incorrectRegisterClass _ expected => incorrectRegisterClass text expected
  | expectedFloat _ => expectedFloat text
  | unexpectedValue kind _ => unexpectedValue kind text
  | reason => reason

/-- A lexeme is refused for a reason, which quotes its text if it quotes one. -/
def Lexeme.refuse (l : Lexeme) (reason : Reason) : ParseError :=
  .atLexeme (reason.withFound l.text) l

/-! ## Pairings -/

/-- How two lists of lexemes are compared. -/
structure Pairing where
  /-- The lexemes go together. -/
  Pair : Lexeme → Lexeme → Prop
  /-- Lexemes that go together are of the same token. -/
  token_eq : ∀ {l l' : Lexeme}, Pair l l' → l.token = l'.token
  /-- The end of the first text. -/
  stop : Location
  /-- The end of the second text. -/
  stop' : Location
  /-- The part of the first list that is not compared. -/
  tail : List Lexeme
  /-- The part of the second list that is not compared. -/
  tail' : List Lexeme

namespace Pairing

variable {Q : Pairing}

/-- The lists are compared up to their ends, and the ends go together too. -/
def Closed (Q : Pairing) : Prop :=
  Q.tail = [] ∧ Q.tail' = [] ∧ Q.Pair (.endAt Q.stop) (.endAt Q.stop')

/-- The lists start with lexemes that go together one by one, up to what is not compared. -/
inductive Lists (Q : Pairing) : List Lexeme → List Lexeme → Prop
  | tail : Lists Q Q.tail Q.tail'
  | cons {l l' : Lexeme} {ls ls' : List Lexeme} :
      Q.Pair l l' → Lists Q ls ls' → Lists Q (l :: ls) (l' :: ls')

/-- The next lexemes go together, or the lists are not compared any more. -/
theorem Lists.pair_or {ls ls' : List Lexeme} (h : Q.Lists ls ls') :
    (Q.Pair (head Q.stop ls) (head Q.stop' ls') ∧ Q.Lists ls.tail ls'.tail) ∨
      (¬ Q.Closed ∧ ls = Q.tail) := by
  cases h with
  | cons hpair hrest => exact .inl ⟨hpair, hrest⟩
  | tail =>
      by_cases hclosed : Q.Closed
      · obtain ⟨htail, htail', hpair⟩ := hclosed
        have hlists : Q.Lists Q.tail Q.tail' := .tail
        rw [htail, htail'] at hlists ⊢
        exact .inl ⟨hpair, hlists⟩
      · exact .inr ⟨hclosed, rfl⟩

/-- The second list goes on like the first one, unless they are not compared any more. -/
theorem Lists.cons_or {l : Lexeme} {ls ls' : List Lexeme} (h : Q.Lists (l :: ls) ls') :
    (∃ l' rest', ls' = l' :: rest' ∧ Q.Pair l l' ∧ Q.Lists ls rest') ∨
      (¬ Q.Closed ∧ l :: ls = Q.tail) := by
  generalize hls : l :: ls = full at h
  cases h with
  | tail =>
      refine .inr ⟨fun hclosed => ?_, rfl⟩
      cases hls.trans hclosed.1
  | cons hpair hrest =>
      obtain ⟨rfl, rfl⟩ := List.cons_eq_cons.1 hls
      exact .inl ⟨_, _, rfl, hpair, hrest⟩

/-- The second list ends with the first one, unless they are not compared any more. -/
theorem Lists.nil_or {ls' : List Lexeme} (h : Q.Lists [] ls') :
    ls' = [] ∨ (¬ Q.Closed ∧ [] = Q.tail) := by
  generalize hls : ([] : List Lexeme) = ls at h
  cases h with
  | tail =>
      by_cases hclosed : Q.Closed
      · exact .inl (hclosed.2.1.trans hclosed.1.symm)
      · exact .inr ⟨hclosed, rfl⟩
  | cons hpair hrest => cases hls

/-- Lists that are compared up to their ends have the same tokens. -/
theorem Lists.tokens_eq {ls ls' : List Lexeme} (h : Q.Lists ls ls') (hclosed : Q.Closed) :
    ls.map Lexeme.token = ls'.map Lexeme.token := by
  induction h with
  | tail => rw [hclosed.1, hclosed.2.1]
  | cons hpair _ ih => rw [List.map_cons, List.map_cons, Q.token_eq hpair, ih]

/-- An outcome of reading what is not compared: a part of it is left, an error blames a lexeme of it
and a value has some property. -/
structure Escaped (Q : Pairing) (P : α → Prop) (outcome : Except ParseError α × List Lexeme) :
    Prop where
  rest : outcome.2 <:+ Q.tail
  error : ∀ e, outcome.1 = .error e → e.Within Q.stop Q.tail
  value : ∀ a, outcome.1 = .ok a → P a

/-- Two outcomes are in step, where a relation says which values are, or the first outcome is one of
reading what is not compared. -/
inductive FollowsWith (Q : Pairing) (V : α → α → Prop) (P : α → Prop) :
    Except ParseError α × List Lexeme → Except ParseError α × List Lexeme → Prop
  | ok {a a' : α} {rest rest' : List Lexeme} :
      V a a' → Q.Lists rest rest' → FollowsWith Q V P (.ok a, rest) (.ok a', rest')
  | error (reason : Reason) {l l' : Lexeme} {rest rest' : List Lexeme} :
      Q.Pair l l' → Q.Lists rest rest' →
      FollowsWith Q V P (.error (l.refuse reason), rest) (.error (l'.refuse reason), rest')
  | escaped {outcome outcome' : Except ParseError α × List Lexeme} :
      ¬ Q.Closed → Q.Escaped P outcome → FollowsWith Q V P outcome outcome'

/-- Two outcomes are in step with the same value. -/
abbrev Follows (Q : Pairing) (outcome outcome' : Except ParseError α × List Lexeme) : Prop :=
  Q.FollowsWith (· = ·) (fun _ => True) outcome outcome'

/-- What goes on from outcomes in step stays in step if it does from values in step, and keeps to
what is not compared once it has got there. -/
theorem FollowsWith.goOn {V : α → α → Prop} {P : α → Prop} {W : β → β → Prop} {S : β → Prop}
    {outcome outcome' : Except ParseError α × List Lexeme}
    {k k' : α → List Lexeme → Except ParseError β × List Lexeme}
    (h : Q.FollowsWith V P outcome outcome')
    (hk : ∀ a a' rest rest', outcome = (.ok a, rest) → V a a' → Q.Lists rest rest' →
      Q.FollowsWith W S (k a rest) (k' a' rest'))
    (hescape : ∀ a rest, P a → rest <:+ Q.tail → Q.Escaped S (k a rest)) :
    Q.FollowsWith W S (Reader.goOn k outcome) (Reader.goOn k' outcome') := by
  cases h with
  | ok hvalue hrest => exact hk _ _ _ _ rfl hvalue hrest
  | error reason hpair hrest => exact .error reason hpair hrest
  | escaped hopen h =>
      refine .escaped hopen ?_
      obtain ⟨answer, rest⟩ := outcome
      cases answer with
      | error e =>
          refine ⟨h.rest, fun e' he => ?_, fun b hb => by cases hb⟩
          cases he
          exact h.error e rfl
      | ok a => exact hescape a rest (h.value a rfl) h.rest

/-- Values that are put to the same use stay in step. -/
theorem FollowsWith.map {V : α → α → Prop} {P : α → Prop} {W : β → β → Prop} {S : β → Prop}
    {outcome outcome' : Except ParseError α × List Lexeme} {f : α → β}
    (h : Q.FollowsWith V P outcome outcome') (hV : ∀ a a', V a a' → W (f a) (f a'))
    (hP : ∀ a, P a → S (f a)) :
    Q.FollowsWith W S (Reader.goOn (fun a rest => (.ok (f a), rest)) outcome)
      (Reader.goOn (fun a rest => (.ok (f a), rest)) outcome') := by
  refine h.goOn (fun a a' rest rest' _ ha hrest => .ok (hV a a' ha) hrest)
    fun a rest ha hrest => ?_
  refine ⟨hrest, fun e he => (by cases he), fun b hb => ?_⟩
  cases hb
  exact hP a ha

end Pairing

open Pairing

namespace Reader

/-! ## Local readers -/

/-- All errors of the reader are blamed on lexemes that it is given, and two lists that are compared
are read in step. -/
structure Local (dialect : Dialect) (r : Reader α) : Prop where
  blames : r.Blames dialect
  follows : ∀ (Q : Pairing) (ls ls' : List Lexeme), Q.Lists ls ls' →
    Q.Follows (r.run Q.stop ls) (r.run Q.stop' ls')

/-- From lexemes of a token on that go together, two lists are read in step. -/
def LocalAt (t : Token) (r : Reader α) : Prop :=
  ∀ (Q : Pairing) (l l' : Lexeme) (ls ls' : List Lexeme), Q.Pair l l' → l.token = t →
    Q.Lists ls ls' → Q.Follows (r.run Q.stop (l :: ls)) (r.run Q.stop' (l' :: ls'))

/-- A reader keeps to the list that it is given. -/
theorem Blames.escaped {Q : Pairing} {r : Reader α} (hr : r.Blames dialect) {rest : List Lexeme}
    (hrest : rest <:+ Q.tail) : Q.Escaped (fun _ => True) (r.run Q.stop rest) := by
  refine ⟨(r.rest_suffix Q.stop rest).trans hrest, fun e he => ?_, fun _ _ => trivial⟩
  exact (hr Q.stop rest e _ (Prod.ext he rfl)).within.mono hrest

/-- A reader that blames what it is given is local if it keeps in step while the next lexemes go
together. -/
theorem Blames.local {r : Reader α} (hr : r.Blames dialect)
    (h : ∀ (Q : Pairing) (ls ls' : List Lexeme), Q.Lists ls ls' →
      Q.Pair (head Q.stop ls) (head Q.stop' ls') → Q.Lists ls.tail ls'.tail →
      Q.Follows (r.run Q.stop ls) (r.run Q.stop' ls')) : r.Local dialect := by
  refine ⟨hr, fun Q ls ls' hls => ?_⟩
  rcases hls.pair_or with ⟨hpair, htail⟩ | ⟨hopen, rfl⟩
  · exact h Q ls ls' hls hpair htail
  · exact .escaped hopen (hr.escaped List.suffix_rfl)

/-- A reader that reads nothing keeps in step. -/
theorem local_pure (a : α) : (pure a : Reader α).Local dialect :=
  ⟨blames_pure a, fun _ _ _ hls => .ok rfl hls⟩

/-- Local readers one after the other keep in step. -/
theorem Local.bind {r : Reader α} {f : α → Reader β} (hr : r.Local dialect)
    (hf : ∀ a, (f a).Local dialect) : (r >>= f).Local dialect := by
  refine ⟨hr.blames.bind fun a => (hf a).blames, fun Q ls ls' hls => ?_⟩
  rw [run_bind_eq_goOn, run_bind_eq_goOn]
  refine (hr.follows Q ls ls' hls).goOn (fun a a' rest rest' _ ha hrest => ?_)
    fun a rest _ hrest => (hf a).blames.escaped hrest
  subst ha
  exact (hf a).follows Q rest rest' hrest

/-- What is made of a result does not bring a reader out of step. -/
theorem Local.map {r : Reader α} (hr : r.Local dialect) (f : α → β) : (f <$> r).Local dialect :=
  hr.bind fun a => local_pure (f a)

theorem LocalAt.map {r : Reader α} {t : Token} (hr : r.LocalAt t) (f : α → β) :
    (f <$> r).LocalAt t := by
  intro Q l l' ls ls' hpair hl hls
  exact (hr Q l l' ls ls' hpair hl hls).map (fun _ _ => congrArg f) fun _ _ => trivial

/-! ## Values -/

/-- What is made of a lexeme depends on its token, and a reason quotes its text. -/
def ByToken (f : Lexeme → Except Reason α) : Prop :=
  ∃ g : Token → Except Reason α, ∀ l, f l = (g l.token).mapError (Reason.withFound l.text)

/-- It is enough that nothing but a quote is made of the text of a lexeme. -/
theorem ByToken.of_textless {f : Lexeme → Except Reason α}
    (h : ∀ l : Lexeme, f l = (f ⟨l.token, "", .unknown⟩).mapError (Reason.withFound l.text)) :
    ByToken f :=
  ⟨fun t => f ⟨t, "", .unknown⟩, h⟩

/-- Lexemes of one token are both read alike, or are both refused for reasons that differ in their
quotes. -/
theorem ByToken.or {f : Lexeme → Except Reason α} (hf : ByToken f) {l l' : Lexeme}
    (h : l.token = l'.token) :
    (∃ a, f l = .ok a ∧ f l' = .ok a) ∨
      ∃ reason : Reason, f l = .error (reason.withFound l.text) ∧
        f l' = .error (reason.withFound l'.text) := by
  obtain ⟨g, hg⟩ := hf
  rw [hg, hg, ← h]
  cases g l.token with
  | ok a => exact .inl ⟨a, rfl, rfl⟩
  | error reason => exact .inr ⟨reason, rfl, rfl⟩

/-- A reader of one lexeme keeps in step if it asks for its token only. -/
theorem ByToken.follows {f : Lexeme → Except Reason α} (hf : ByToken f) {Q : Pairing}
    {ls ls' : List Lexeme} (hpair : Q.Pair (head Q.stop ls) (head Q.stop' ls'))
    (htail : Q.Lists ls.tail ls'.tail) :
    Q.Follows ((take f).run Q.stop ls) ((take f).run Q.stop' ls') := by
  rw [run_take, run_take]
  rcases hf.or (Q.token_eq hpair) with ⟨a, ha, ha'⟩ | ⟨reason, hreason, hreason'⟩
  · rw [ha, ha']
    exact .ok rfl htail
  · rw [hreason, hreason']
    exact .error reason hpair htail

/-- A reader of one lexeme is local if it asks for its token only. -/
theorem ByToken.local {f : Lexeme → Except Reason α} (hf : ByToken f)
    (hblame : (take f).Blames dialect) : (take f).Local dialect :=
  hblame.local fun _ _ _ _ hpair htail => hf.follows hpair htail

/-- A reader of a whole number keeps in step. -/
theorem local_uint : uint.Local dialect := by
  have hblame : uint.Blames dialect := blames_uint
  rw [uint_eq_take] at hblame ⊢
  refine ByToken.local (.of_textless fun l => ?_) hblame
  dsimp only
  cases l.token <;> rfl

theorem local_float : float.Local dialect := by
  have hblame : float.Blames dialect := blames_float
  rw [float_eq_take] at hblame ⊢
  refine ByToken.local (.of_textless fun l => ?_) hblame
  dsimp only
  cases l.token <;> rfl

theorem local_choice (kind : ValueKind) (value? : Keyword → Option α) :
    (choice kind value?).Local dialect := by
  have hblame : (choice kind value?).Blames dialect := blames_choice kind value?
  rw [choice_eq_take] at hblame ⊢
  refine ByToken.local (.of_textless fun l => ?_) hblame
  dsimp only
  cases keywordValue? value? l.token <;> rfl

/-- A register is read only where there is one, but this does not count here. -/
theorem localAt_register (c : RegisterClass) (t : Token) : (register c).LocalAt t := by
  intro Q l l' ls ls' hpair _ hls
  rw [register_eq_take]
  refine ByToken.follows (.of_textless fun l => ?_) hpair hls
  dsimp only
  cases l.token with
  | register r =>
      dsimp only
      split <;> rfl
  | _ => rfl

/-- What goes on behind an expected token is local if it is so by itself. -/
theorem Local.after {r : Reader α} (hr : r.Local dialect) (t : Token) :
    (expect t >>= fun _ => r).Local dialect := by
  refine ((blames_expect t).bind fun _ => hr.blames).local fun Q ls ls' _ hpair htail => ?_
  rw [run_expect_bind, run_expect_bind, ← Q.token_eq hpair]
  split
  · exact hr.follows Q _ _ htail
  · exact .error (.unexpectedToken "") hpair htail

/-- A keyword in place of a value keeps in step. -/
theorem Local.orKeyword {r : Reader α} (hr : r.Local dialect) (k : Keyword) (instead : α) :
    (Reader.orKeyword k instead r).Local dialect := by
  have hrun (stop : Location) (ls : List Lexeme) :
      (Reader.orKeyword k instead r).run stop ls =
        if (head stop ls).token = .keyword k then (.ok instead, ls.tail) else r.run stop ls := by
    rw [Reader.orKeyword, run_bind, run_peek, ← head_eq]
    dsimp only
    split <;> rfl
  refine (hr.blames.orKeyword k instead).local fun Q ls ls' hls hpair htail => ?_
  rw [hrun, hrun, ← Q.token_eq hpair]
  split
  · exact .ok rfl htail
  · exact hr.follows Q ls ls' hls

/-- The value of a parameter is read in step from the name of the parameter on. -/
theorem Local.assigned {value : Reader α} (hvalue : value.Local dialect) (t : Token) :
    (assigned value).LocalAt t := by
  intro Q l l' ls ls' _ _ hls
  rw [run_assigned, run_assigned]
  exact (hvalue.after .equals).follows Q ls ls' hls

/-! ## Flags -/

section
variable {F : Type} [WrittenFlag F]

/-- Whether a lexeme is a flag depends on its token only. -/
theorem byToken_ofLexeme (dialect : Dialect) :
    ByToken (WrittenFlag.ofLexeme dialect : Lexeme → Except Reason F) := by
  refine .of_textless fun l => ?_
  unfold WrittenFlag.ofLexeme
  dsimp only
  split
  · rfl
  · split <;> rfl

/-- A list of flags starts with a flag. At the end of the text there is none. -/
theorem runFlagList_eq (canFollow : Token → Bool) (stop : Location) (ls : List Lexeme) :
    runFlagList (F := F) dialect canFollow stop ls =
      match (WrittenFlag.ofLexeme dialect (head stop ls) : Except Reason F) with
      | .ok f => (afterFlag dialect canFollow f).run stop ls.tail
      | .error reason => (.error (.atLexeme reason (head stop ls)), ls.tail) := by
  cases ls with
  | nil => rw [runFlagList]; rfl
  | cons l ls => exact runFlagList_cons dialect canFollow stop l ls

/-- What comes after a flag is read in step if the other flags are. -/
theorem follows_afterFlag {Q : Pairing} (canFollow : Token → Bool) (f : F) {ls ls' : List Lexeme}
    (hls : Q.Lists ls ls')
    (hrec : ∀ rest rest', Q.Lists rest rest' → rest <:+ ls →
      Q.Follows (runFlagList (F := F) dialect canFollow Q.stop rest)
        (runFlagList (F := F) dialect canFollow Q.stop' rest')) :
    Q.Follows ((afterFlag dialect canFollow f).run Q.stop ls)
      ((afterFlag dialect canFollow f).run Q.stop' ls') := by
  rcases hls.pair_or with ⟨hpair, htail⟩ | ⟨hopen, rfl⟩
  · rw [run_afterFlag, run_afterFlag, ← Q.token_eq hpair]
    split
    · exact .ok rfl hls
    · rw [run_expect_bind, run_expect_bind, ← Q.token_eq hpair]
      split
      · exact (hrec _ _ htail (List.tail_suffix ls)).map
          (fun _ _ hfs => congrArg (fun fs : FlagSet F => {f} ∪ fs) hfs) fun _ _ => trivial
      · exact .error (.unexpectedToken "") hpair htail
  · exact .escaped hopen ((blames_afterFlag canFollow f).escaped List.suffix_rfl)

/-- Lists of flags are read in step. -/
theorem local_flagList (canFollow : Token → Bool) :
    (flagList dialect canFollow : Reader (FlagSet F)).Local dialect := by
  have hblame : (flagList dialect canFollow : Reader (FlagSet F)).Blames dialect :=
    fun _ _ _ _ => blame_of_runFlagList
  refine ⟨hblame, fun Q ls ls' hls => ?_⟩
  show Q.Follows (runFlagList dialect canFollow Q.stop ls)
    (runFlagList dialect canFollow Q.stop' ls')
  induction hn : ls.length using Nat.strongRecOn generalizing ls ls' with
  | ind n ih =>
      subst hn
      rcases hls.pair_or with ⟨hpair, htail⟩ | ⟨hopen, rfl⟩
      · rw [runFlagList_eq, runFlagList_eq]
        have htoken : ByToken (WrittenFlag.ofLexeme dialect : Lexeme → Except Reason F) :=
          byToken_ofLexeme dialect
        rcases htoken.or (Q.token_eq hpair) with ⟨f, hf, hf'⟩ | ⟨reason, hreason, hreason'⟩
        · rw [hf, hf']
          obtain ⟨k, hk, -⟩ := ofLexeme_eq_ok_iff.1 hf
          obtain ⟨l, ls, rfl, -⟩ := exists_cons_of_head hk (by simp)
          refine follows_afterFlag canFollow f htail fun rest rest' hrest hsuffix => ?_
          exact ih rest.length (Nat.lt_succ_of_le hsuffix.length_le) rest rest' hrest rfl
        · rw [hreason, hreason']
          exact .error reason hpair htail
      · exact .escaped hopen (hblame.escaped List.suffix_rfl)

/-- A zero for no flags, or a list of flags, is read in step. -/
theorem local_flags (canFollow : Token → Bool) :
    (flags dialect canFollow : Reader (FlagSet F)).Local dialect := by
  refine (blames_flags canFollow).local fun Q ls ls' hls hpair htail => ?_
  rw [run_flags, run_flags, ← Q.token_eq hpair]
  split
  · split
    · exact .ok rfl htail
    · exact .error (.invalidFlagNumber (WrittenFlag.family F) "") hpair htail
  · exact (local_flagList canFollow).follows Q ls ls' hls

/-- The flags of a parameter are read in step from the name of the parameter on. -/
theorem localAt_parameterFlags (t : Token) :
    (parameterFlags dialect : Reader (FlagSet F)).LocalAt t := by
  unfold parameterFlags
  cases dialect.version with
  | v1_0 =>
      intro Q l l' ls ls' hpair _ hls
      exact .error (.flagsNotSupported (WrittenFlag.family F) .v1_0) hpair (.cons hpair hls)
  | v1_1 =>
      have hflags : (flags dialect canFollowParameter : Reader (FlagSet F)).Local dialect :=
        local_flags canFollowParameter
      exact hflags.assigned t

end

/-- The flags of the whole signature are read in step from their opening word on. -/
theorem localAt_rootFlags (t : Token) : (rootFlags dialect).LocalAt t := by
  have hrest : (expect .leftParen >>= fun _ => (flags dialect (· = .rightParen) : Reader
      (FlagSet RootFlag)) >>= fun fs => expect .rightParen >>= fun _ => pure fs).Local dialect :=
    ((local_flags _).bind fun fs => (local_pure fs).after .rightParen).after .leftParen
  exact fun Q l l' ls ls' _ _ hls => hrest.follows Q ls ls' hls

/-! ## Items -/

/-- The items blame what they are given, and are read in step from the token that they start
with. -/
structure ItemsLocal (dialect : Dialect) (item? : Token → Option (Item α)) : Prop where
  blame : ItemsBlame dialect item?
  localAt : ∀ t item, item? t = some item → item.read.LocalAt t

/-- Two outcomes of reading items are in step: the items are the same, and the closing parentheses
go together. -/
abbrev ListFollows (Q : Pairing) (outcome outcome' : Except ParseError (List α × Lexeme) ×
    List Lexeme) : Prop :=
  Q.FollowsWith (fun answer answer' => answer.1 = answer'.1 ∧ Q.Pair answer.2 answer'.2)
    (fun answer => answer.2 ∈ Q.tail) outcome outcome'

variable {Q : Pairing} {item? : Token → Option (Item α)}

/-- What comes after an item, whether or not the end has been reached. -/
theorem afterItem_eq (item? : Token → Option (Item α)) (stop : Location) (filled : List Slot)
    (a : α) (ls : List Lexeme) :
    afterItem item? stop filled a ls =
      match (head stop ls).token with
      | .rightParen => (.ok ([a], head stop ls), ls.tail)
      | .comma =>
        goOn (fun (as, close) rest => (.ok (a :: as, close), rest))
          (runItems item? stop filled ls.tail)
      | _ => (.error (.atLexeme (.unexpectedToken (head stop ls).text) (head stop ls)),
          ls.tail) := by
  cases ls <;> rfl

/-- Items keep to the list that they are given. -/
theorem ItemsBlame.escaped_runItems (h : ItemsBlame dialect item?) (filled : List Slot)
    {rest : List Lexeme} (hrest : rest <:+ Q.tail) :
    Q.Escaped (fun answer => answer.2 ∈ Q.tail) (runItems item? Q.stop filled rest) := by
  refine ⟨(runItems_suffix item? Q.stop filled rest).trans hrest, fun e he => ?_, fun a ha => ?_⟩
  · exact (h.blame_of_runItems (Prod.ext he rfl)).within.mono hrest
  · have hclose := (close_of_runItems (Prod.ext ha rfl)).1
    exact (hclose.trans hrest).mem (List.mem_cons_self ..)

/-- What comes behind an item keeps to the list that it is given. -/
theorem escaped_afterItem (h : ItemsBlame dialect item?) (filled : List Slot) (a : α)
    {rest : List Lexeme} (hrest : rest <:+ Q.tail) :
    Q.Escaped (fun answer => answer.2 ∈ Q.tail) (afterItem item? Q.stop filled a rest) := by
  refine ⟨(h.afterItem filled a rest).1.trans hrest,
    fun e he => ((h.afterItem filled a rest).2.1 e he).mono hrest, fun answer hanswer => ?_⟩
  exact hrest.mem ((h.afterItem filled a rest).2.2 answer.1 answer.2 _ (Prod.ext hanswer rfl))

/-- What comes after an item is read in step if the other items are. -/
theorem ItemsLocal.follows_afterItem (h : ItemsLocal dialect item?) (filled : List Slot) (a : α)
    {ls ls' : List Lexeme} (hls : Q.Lists ls ls')
    (hrec : ∀ separator rest rest', ls = separator :: rest → Q.Lists rest rest' →
      ListFollows Q (runItems item? Q.stop filled rest) (runItems item? Q.stop' filled rest')) :
    ListFollows Q (afterItem item? Q.stop filled a ls) (afterItem item? Q.stop' filled a ls') := by
  rcases hls.pair_or with ⟨hpair, htail⟩ | ⟨hopen, rfl⟩
  · rw [afterItem_eq, afterItem_eq, ← Q.token_eq hpair]
    split
    · exact .ok ⟨rfl, hpair⟩ htail
    · next hcomma =>
        obtain ⟨separator, ls, rfl, -⟩ := exists_cons_of_head hcomma (by simp)
        exact (hrec separator _ _ rfl htail).map
          (fun _ _ hanswer => ⟨congrArg (a :: ·) hanswer.1, hanswer.2⟩) fun _ hanswer => hanswer
    · exact .error (.unexpectedToken "") hpair htail
  · exact .escaped hopen (escaped_afterItem h.blame filled a List.suffix_rfl)

/-- A list that starts with an item which may be given is read in step if the item is, and the items
after it. -/
theorem ItemsLocal.follows_item (h : ItemsLocal dialect item?) {filled : List Slot} {l l' : Lexeme}
    {ls ls' : List Lexeme} {item : Item α} (hitem : item? l.token = some item)
    (hfilled : item.slot?.filter (· ∈ filled) = none) (hpair : Q.Pair l l') (hls : Q.Lists ls ls')
    (hrec : ∀ filled separator rest rest', separator :: rest <:+ l :: ls → Q.Lists rest rest' →
      ListFollows Q (runItems item? Q.stop filled rest) (runItems item? Q.stop' filled rest')) :
    ListFollows Q (runItems item? Q.stop filled (l :: ls))
      (runItems item? Q.stop' filled (l' :: ls')) := by
  have hitem' : item? l'.token = some item := Q.token_eq hpair ▸ hitem
  have hread := h.localAt _ item hitem Q l l' ls ls' hpair rfl hls
  rw [runItems_eq_goOn hitem hfilled, runItems_eq_goOn hitem' hfilled]
  refine hread.goOn (fun a a' rest rest' hrun ha hrest => ?_)
    fun a rest _ hrest => escaped_afterItem h.blame _ a hrest
  subst ha
  refine h.follows_afterItem _ a hrest fun separator rest₂ rest₂' hsplit hlists => ?_
  subst hsplit
  exact hrec _ separator rest₂ rest₂' (suffix_of_run hrun) hlists

/-- Lists of items are read in step. -/
theorem ItemsLocal.follows_runItems (h : ItemsLocal dialect item?) (filled : List Slot)
    {ls ls' : List Lexeme} (hls : Q.Lists ls ls') :
    ListFollows Q (runItems item? Q.stop filled ls) (runItems item? Q.stop' filled ls') := by
  induction hn : ls.length using Nat.strongRecOn generalizing filled ls ls' with
  | ind n ih =>
      subst hn
      rcases hls.pair_or with ⟨hpair, htail⟩ | ⟨hopen, rfl⟩
      · cases hitem : item? (head Q.stop ls).token with
        | none =>
            rw [runItems_eq, runItems_eq, ← Q.token_eq hpair, hitem]
            exact .error (.unexpectedToken "") hpair hls
        | some item =>
            cases hfilled : item.slot?.filter (· ∈ filled) with
            | some slot =>
                rw [runItems_eq, runItems_eq, ← Q.token_eq hpair, hitem]
                dsimp only
                rw [hfilled]
                exact .error (.duplicateParameter slot.label) hpair hls
            | none =>
                have ht : (head Q.stop ls).token ≠ .eof := fun heof => by
                  rw [heof, h.blame.eof] at hitem
                  cases hitem
                obtain ⟨l, ls, rfl, -⟩ := exists_cons_of_head rfl ht
                rcases hls.cons_or with ⟨l', ls', rfl, hpair, hrest⟩ | ⟨hopen, htail⟩
                · exact h.follows_item hitem hfilled hpair hrest
                    fun filled separator rest rest' hsuffix hlists =>
                      ih rest.length hsuffix.length_le filled hlists rfl
                · exact .escaped hopen
                    (h.blame.escaped_runItems filled (htail ▸ List.suffix_rfl))
      · exact .escaped hopen (h.blame.escaped_runItems filled List.suffix_rfl)

/-- A construct is read in step behind its opening word. What is missing is blamed on the closing
parentheses, which go together. -/
theorem ItemsLocal.inParens (h : ItemsLocal dialect item?)
    (ofItems : List α → Except RequiredParameter β) :
    (Reader.inParens item? ofItems).Local dialect := by
  refine (h.blame.inParens ofItems).local fun Q ls ls' _ hpair htail => ?_
  rw [run_inParens, run_inParens, ← Q.token_eq hpair]
  split
  · refine (h.follows_runItems [] htail).goOn (fun answer answer' rest rest' _ hanswer hrest => ?_)
      fun answer rest hclose hrest => ?_
    · obtain ⟨as, close⟩ := answer
      obtain ⟨as', close'⟩ := answer'
      obtain ⟨rfl, hclose⟩ : as = as' ∧ Q.Pair close close' := hanswer
      dsimp only [afterItems]
      cases ofItems as with
      | ok b => exact .ok rfl hrest
      | error missing => exact .error (.missingParameter missing) hclose hrest
    · obtain ⟨as, close⟩ := answer
      dsimp only [afterItems]
      cases ofItems as with
      | ok b => exact ⟨hrest, fun e he => (by cases he), fun _ _ => trivial⟩
      | error missing =>
          refine ⟨hrest, fun e he => ?_, fun _ _ => trivial⟩
          cases he
          exact ⟨_, close, List.mem_append_left _ hclose, rfl⟩
  · exact .error (.unexpectedToken "") hpair htail

/-- A construct whose items are local is local. -/
theorem ItemsLocal.construct (h : ItemsLocal dialect item?)
    (ofItems : List α → Except RequiredParameter β) (t : Token) :
    (Reader.construct item? ofItems).LocalAt t :=
  fun Q _ _ ls ls' _ _ hls => (h.inParens ofItems).follows Q ls ls' hls

/-! ## Declarations -/

/-- All readers blame what they are given and read in step if those of single values do. -/
theorem local_compositional : Compositional dialect (fun _ r => r.Local dialect)
    (fun _ t r => r.BlamesAt dialect t ∧ r.LocalAt t) where
  uint := local_uint
  float := local_float
  choice := local_choice
  orKeyword k instead hr := hr.orKeyword k instead
  mapValue f hr := hr.map f
  register c r := ⟨blamesAt_register c r, localAt_register c _⟩
  assigned t hr := ⟨hr.blames.assigned t, hr.assigned t⟩
  parameterFlags hfamily := ⟨blamesAt_parameterFlags hfamily, localAt_parameterFlags _⟩
  rootFlags t := ⟨blamesAt_rootFlags t, localAt_rootFlags t⟩
  construct ofItems t hname hread :=
    have hblame := ⟨eof_of_isName hname, fun t item hitem => (hread t item hitem).1⟩
    ⟨ItemsBlame.construct hblame ofItems t,
      ItemsLocal.construct ⟨hblame, fun t item hitem => (hread t item hitem).2⟩ ofItems t⟩
  map f hr := ⟨hr.1.map f, hr.2.map f⟩

end Reader

/-- Two readings are in step: the same declarations have been read, and the same is left. If
reading has stopped, lexemes that go together are refused for the same reason. Or the first reading
has got to what is not compared, and if it has stopped, a lexeme is blamed there. -/
inductive Pairing.ReadingFollows (Q : Pairing) : Reading → Reading → Prop
  | ok {ds : List Declaration} {rest rest' : List Lexeme} :
      Q.Lists rest rest' → ReadingFollows Q ⟨ds, none, rest⟩ ⟨ds, none, rest'⟩
  | error {ds : List Declaration} (reason : Reason) {l l' : Lexeme} {rest rest' : List Lexeme} :
      Q.Pair l l' → Q.Lists rest rest' →
      ReadingFollows Q ⟨ds, some (l.refuse reason), rest⟩ ⟨ds, some (l'.refuse reason), rest'⟩
  | escaped {reading reading' : Reading} :
      ¬ Q.Closed → (∀ e, reading.failure? = some e → e.Within Q.stop Q.tail) →
      ReadingFollows Q reading reading'

/-- Readings stay in step with one more declaration before them. -/
theorem Pairing.ReadingFollows.cons {Q : Pairing} {r r' : Reading} (h : Q.ReadingFollows r r')
    (d : Declaration) :
    Q.ReadingFollows { r with declarations := d :: r.declarations }
      { r' with declarations := d :: r'.declarations } := by
  cases h with
  | ok hrest => exact .ok hrest
  | error reason hpair hrest => exact .error reason hpair hrest
  | escaped hopen hwithin => exact .escaped hopen hwithin

/-- If the lists are compared up to their ends, the second reading stops where the first one
does. -/
theorem Pairing.ReadingFollows.failure {Q : Pairing} {r r' : Reading} (h : Q.ReadingFollows r r')
    (hclosed : Q.Closed) {e : ParseError} (he : r.failure? = some e) :
    ∃ reason l l', Q.Pair l l' ∧ e = l.refuse reason ∧ r'.failure? = some (l'.refuse reason) := by
  cases h with
  | ok hrest => cases he
  | error reason hpair hrest =>
      cases he
      exact ⟨reason, _, _, hpair, rfl, rfl⟩
  | escaped hopen hwithin => exact absurd hclosed hopen

/-- What comes after a declaration is read in step if the other declarations are. -/
theorem follows_afterDeclaration {Q : Pairing} (flagsDeclared : Bool) (d : Declaration)
    {ls ls' : List Lexeme} (hls : Q.Lists ls ls')
    (hrec : ∀ separator rest rest', ls = separator :: rest → Q.Lists rest rest' →
      Q.ReadingFollows (readDeclarations dialect Q.stop flagsDeclared rest)
        (readDeclarations dialect Q.stop' flagsDeclared rest')) :
    Q.ReadingFollows (afterDeclaration dialect Q.stop flagsDeclared d ls)
      (afterDeclaration dialect Q.stop' flagsDeclared d ls') := by
  have hescape (hopen : ¬ Q.Closed) (htail : ls = Q.tail) :
      Q.ReadingFollows (afterDeclaration dialect Q.stop flagsDeclared d ls)
        (afterDeclaration dialect Q.stop' flagsDeclared d ls') :=
    .escaped hopen fun e he => htail ▸ within_of_afterDeclaration he
  cases ls with
  | nil =>
      rcases hls.nil_or with rfl | ⟨hopen, htail⟩
      · exact .ok hls
      · exact hescape hopen htail
  | cons separator rest =>
      rcases hls.cons_or with ⟨separator', rest', rfl, hpair, hrest⟩ | ⟨hopen, htail⟩
      · dsimp only [afterDeclaration]
        rw [← Q.token_eq hpair]
        split
        · exact (hrec separator rest rest' rfl hrest).cons d
        · exact .error (.expectedComma "") hpair hrest
      · exact hescape hopen htail

/-- What comes of reading a declaration is read in step if the declaration is, and those after
it. -/
theorem follows_afterOutcome {Q : Pairing} {flagsDeclared : Bool}
    {outcome outcome' : Except ParseError Declaration × List Lexeme}
    (h : Q.Follows outcome outcome')
    (hrec : ∀ (d : Declaration) separator rest rest', outcome.2 = separator :: rest →
      Q.Lists rest rest' →
      Q.ReadingFollows (readDeclarations dialect Q.stop (flagsDeclared || d.isRootFlags) rest)
        (readDeclarations dialect Q.stop' (flagsDeclared || d.isRootFlags) rest')) :
    Q.ReadingFollows (afterOutcome dialect Q.stop flagsDeclared outcome)
      (afterOutcome dialect Q.stop' flagsDeclared outcome') := by
  cases h with
  | ok hd hrest =>
      subst hd
      exact follows_afterDeclaration _ _ hrest (hrec _)
  | error reason hpair hrest => exact .error reason hpair hrest
  | escaped hopen hescaped =>
      exact .escaped hopen fun e he => within_of_afterOutcome hescaped.rest hescaped.error he

/-- Two lists of declarations are read in step. -/
theorem follows_readDeclarations {Q : Pairing} (dialect : Dialect) (flagsDeclared : Bool)
    {ls ls' : List Lexeme} (hls : Q.Lists ls ls') :
    Q.ReadingFollows (readDeclarations dialect Q.stop flagsDeclared ls)
      (readDeclarations dialect Q.stop' flagsDeclared ls') := by
  induction hn : ls.length using Nat.strongRecOn generalizing flagsDeclared ls ls' with
  | ind n ih =>
      subst hn
      have hescape (hopen : ¬ Q.Closed) (htail : ls = Q.tail) :
          Q.ReadingFollows (readDeclarations dialect Q.stop flagsDeclared ls)
            (readDeclarations dialect Q.stop' flagsDeclared ls') :=
        .escaped hopen fun e he => htail ▸ (blame_of_readDeclarations he).within
      cases ls with
      | nil =>
          rcases hls.nil_or with rfl | ⟨hopen, htail⟩
          · rw [readDeclarations, readDeclarations]
            exact .ok hls
          · exact hescape hopen htail
      | cons first ls =>
          rcases hls.cons_or with ⟨first', ls', rfl, hpair, hrest⟩ | ⟨hopen, htail⟩
          · have htoken := Q.token_eq hpair
            by_cases hfirst : first.token = .keyword (.opening .rootFlags) ∧ flagsDeclared
            · rw [readDeclarations_cons, readDeclarations_cons, ← htoken, if_pos hfirst,
                if_pos hfirst]
              exact .error .rootFlagsRedefined hpair hls
            · cases hreader : Declaration.ofToken? dialect first.token with
              | none =>
                  rw [readDeclarations_cons, readDeclarations_cons, ← htoken, if_neg hfirst,
                    if_neg hfirst, hreader]
                  exact .error (.unexpectedDeclaration "") hpair hls
              | some reader =>
                  rw [readDeclarations_eq_afterOutcome hfirst hreader,
                    readDeclarations_eq_afterOutcome (htoken ▸ hfirst) (htoken ▸ hreader)]
                  have hread := (local_compositional.declaration hreader).2 Q first first' ls ls'
                    hpair rfl hrest
                  refine follows_afterOutcome hread fun d separator rest rest' hsplit hlists => ?_
                  -- A declaration leaves no more than there was, and the separator is taken too.
                  have hsuffix : separator :: rest <:+ first :: ls :=
                    hsplit ▸ reader.rest_suffix Q.stop (first :: ls)
                  exact ih rest.length hsuffix.length_le _ hlists rfl
          · exact hescape hopen htail

end RootSignature
