import RootSignature.Proofs.Error.Blame

/-!
# Where reading stops

What a failed attempt leaves is decided by the place of the error. All lexemes before the one that
is refused have been taken, and that one has been taken too, unless it was noticed ahead: as the
start of an item or of a declaration that can not stand there, or as the flags of a version that has
none (`Reason.isNoticedAhead`). `Halt` says so of an error and of what is left.

Whether an unexpected token was noticed ahead can be told by the lexeme before it, so the readers
are followed with the lexemes that have been taken: `Reader.Halts` is a triple of what holds of
these before, of the reader, and of what holds of them after it has answered.
`halt_of_readDeclarations` is the main result.
-/

namespace RootSignature

open Reader

variable {α β : Type} {dialect : Dialect} {stop : Location}

/-- An item should start behind the token: behind the parenthesis that opens a list of items, and
behind the comma between two of them. What else may be found behind these tokens, flags and
declarations, is never refused as an unexpected token. -/
def Token.opensItem : Token → Bool
  | leftParen | comma => true
  | _ => false

/-- A name does not open a list of items. -/
theorem Token.IsName.opensItem {t : Token} (h : t.IsName) : t.opensItem = false := by
  rcases h with ⟨k, rfl⟩ | ⟨r, rfl⟩ <;> rfl

/-- An item should start behind what has been taken. -/
def startsItem (taken : List Lexeme) : Bool :=
  taken.getLast?.any (·.token.opensItem)

/-- Behind the lexemes that have been taken, the reason is noticed before the lexeme that it refuses
is taken: by the reason alone, or because an item should start here. -/
def Reason.isNoticedAhead (taken : List Lexeme) : Reason → Bool
  | unexpectedToken _ => startsItem taken
  | reason => reason.isAhead

/-- Whether an item starts next depends on the last lexeme that has been taken. -/
@[simp] theorem startsItem_append_singleton (taken : List Lexeme) (l : Lexeme) :
    startsItem (taken ++ [l]) = l.token.opensItem := by
  simp [startsItem]

/-- A lexeme of a list, or its end, is refused. What is before it has been taken, and it has been
taken itself unless it was noticed ahead. If it is refused for starting no declaration, so it is
when reading begins with it. -/
def Halt (dialect : Dialect) (stop : Location) (taken ls : List Lexeme) (e : ParseError)
    (rest : List Lexeme) : Prop :=
  ∃ front back reason, ls = front ++ back ∧ e = .atLexeme reason (head stop back) ∧
    rest = (if reason.isNoticedAhead (taken ++ front) then back else back.tail) ∧
    ∀ found, reason = .unexpectedDeclaration found →
      readDeclarations dialect stop false back = ⟨[], some e, back⟩

namespace Halt

variable {taken ls rest : List Lexeme} {e : ParseError} {reason : Reason}

/-- The lexeme that is next is refused and still there. -/
theorem ahead (ls : List Lexeme) (h : reason.isNoticedAhead taken = true)
    (hreason : ∀ found, reason ≠ .unexpectedDeclaration found) :
    Halt dialect stop taken ls (.atLexeme reason (head stop ls)) ls :=
  ⟨[], ls, reason, rfl, rfl, by rw [List.append_nil, if_pos h],
    fun found hfound => absurd hfound (hreason found)⟩

/-- The lexeme that is next is refused and has been taken. -/
theorem next (ls : List Lexeme) (h : reason.isNoticedAhead taken = false) :
    Halt dialect stop taken ls (.atLexeme reason (head stop ls)) ls.tail := by
  refine ⟨[], ls, reason, rfl, rfl, ?_, ?_⟩
  · rw [List.append_nil, h, if_neg Bool.false_ne_true]
  · rintro found rfl
    cases h

/-- An error behind some lexemes is an error of the list that starts with them. -/
theorem append (front : List Lexeme) (h : Halt dialect stop (taken ++ front) ls e rest) :
    Halt dialect stop taken (front ++ ls) e rest := by
  obtain ⟨front', back, reason, rfl, he, hrest, hreason⟩ := h
  rw [List.append_assoc] at hrest
  exact ⟨front ++ front', back, reason, (List.append_assoc ..).symm, he, hrest, hreason⟩

end Halt

namespace Reader

/-! ## Triples -/

/-- An item starts behind the lexemes that have been taken. -/
def AtItem (taken : List Lexeme) : Prop := startsItem taken = true

/-- No item starts behind the lexemes that have been taken. -/
def Within (taken : List Lexeme) : Prop := startsItem taken = false

/-- What has come of reading a list: an error halts there, and if there is an answer, something
holds of all lexemes that have been taken, those before the list among them. -/
inductive Ends (dialect : Dialect) (stop : Location) (taken ls : List Lexeme)
    (after : List Lexeme → Prop) : Except ParseError α × List Lexeme → Prop
  | ok {a : α} {rest : List Lexeme} (front : List Lexeme) :
      ls = front ++ rest → after (taken ++ front) → Ends dialect stop taken ls after (.ok a, rest)
  | error {e : ParseError} {rest : List Lexeme} :
      Halt dialect stop taken ls e rest → Ends dialect stop taken ls after (.error e, rest)

/-- Behind lexemes of which one thing holds, the reader ends so that another thing does. -/
def Halts (dialect : Dialect) (before : List Lexeme → Prop) (r : Reader α)
    (after : List Lexeme → Prop) : Prop :=
  ∀ stop taken ls, before taken → Ends dialect stop taken ls after (r.run stop ls)

/-- From a token on, the reader ends within an item. -/
def HaltsFrom (dialect : Dialect) (t : Token) (r : Reader α) : Prop :=
  ∀ stop taken l ls, l.token = t → Ends dialect stop taken (l :: ls) Within (r.run stop (l :: ls))

section
variable {taken ls : List Lexeme} {before between after : List Lexeme → Prop}

/-- What has been taken before a reader starts can be counted as taken by it. -/
theorem Ends.append (front : List Lexeme) {outcome : Except ParseError α × List Lexeme}
    (h : Ends dialect stop (taken ++ front) ls after outcome) :
    Ends dialect stop taken (front ++ ls) after outcome := by
  cases h with
  | @ok a rest front' hls hafter =>
      refine .ok (front ++ front') ?_ ?_
      · rw [hls, List.append_assoc]
      · rwa [← List.append_assoc]
  | error h => exact .error (h.append front)

/-- What goes on after an answer ends as it does behind all that has been taken before. -/
theorem Ends.goOn {outcome : Except ParseError α × List Lexeme}
    {k : α → List Lexeme → Except ParseError β × List Lexeme}
    (h : Ends dialect stop taken ls between outcome)
    (hk : ∀ a front rest, ls = front ++ rest → outcome = (.ok a, rest) → between (taken ++ front) →
      Ends dialect stop (taken ++ front) rest after (k a rest)) :
    Ends dialect stop taken ls after (Reader.goOn k outcome) := by
  cases h with
  | @ok a rest front hls hbetween =>
      rw [hls]
      exact (hk a front rest hls rfl hbetween).append front
  | error h => exact .error h

/-- What is made of a result does not change where reading ends. -/
theorem Ends.map {outcome : Except ParseError α × List Lexeme}
    (h : Ends dialect stop taken ls after outcome) (f : α → β) :
    Ends dialect stop taken ls after (outcome.1.map f, outcome.2) := by
  cases h with
  | ok front hls hafter => exact .ok front hls hafter
  | error h => exact .error h

/-- Readers one after the other end where the second one does, if the first is between them. -/
theorem Halts.bind {r : Reader α} {f : α → Reader β} (hr : r.Halts dialect before between)
    (hf : ∀ a, (f a).Halts dialect between after) : (r >>= f).Halts dialect before after := by
  intro stop taken ls hbefore
  rw [run_bind_eq_goOn]
  exact (hr stop taken ls hbefore).goOn fun a _ rest _ _ hbetween => hf a stop _ rest hbetween

/-- A reader that reads nothing ends where it starts. -/
theorem halts_pure (a : α) : (pure a : Reader α).Halts dialect before before := by
  intro stop taken ls hbefore
  exact .ok [] rfl (by rwa [List.append_nil])

/-- What is made of a result leaves the same lexemes. -/
theorem run_map_eq (f : α → β) (r : Reader α) (stop : Location) (ls : List Lexeme) :
    (f <$> r).run stop ls = ((r.run stop ls).1.map f, (r.run stop ls).2) := by
  rw [run_map]
  obtain ⟨answer, rest⟩ := r.run stop ls
  cases answer <;> rfl

/-- What is made of a result does not change where a reader ends. -/
theorem Halts.map {r : Reader α} (hr : r.Halts dialect before after) (f : α → β) :
    (f <$> r).Halts dialect before after := by
  intro stop taken ls hbefore
  rw [run_map_eq]
  exact (hr stop taken ls hbefore).map f

theorem HaltsFrom.map {t : Token} {r : Reader α} (hr : r.HaltsFrom dialect t) (f : α → β) :
    (f <$> r).HaltsFrom dialect t := by
  intro stop taken l ls hl
  rw [run_map_eq]
  exact (hr stop taken l ls hl).map f

end

/-! ## Values -/

/-- A reader of one lexeme takes also what it refuses. -/
theorem halts_take {f : Lexeme → Except Reason α} {after : List Lexeme → Prop}
    (herror : ∀ l reason, f l = .error reason → reason.isAhead = false)
    (hok : ∀ l a, f l = .ok a → l.token ≠ .eof ∧ ∀ taken, after (taken ++ [l])) :
    (take f).Halts dialect Within after := by
  intro stop taken ls hwithin
  rw [run_take]
  cases hf : f (head stop ls) with
  | ok a =>
      obtain ⟨heof, hafter⟩ := hok _ a hf
      obtain ⟨l, ls, rfl, -⟩ := exists_cons_of_head rfl heof
      exact .ok [l] rfl (hafter taken)
  | error reason =>
      have hahead := herror _ reason hf
      have hlate : reason.isNoticedAhead taken = false := by
        cases reason with
        | unexpectedToken found => exact hwithin
        | _ => exact hahead
      exact .error (.next ls hlate)

/-- Values are neither openings of items nor the end. -/
theorem halts_value {f : Lexeme → Except Reason α}
    (herror : ∀ l reason, f l = .error reason → reason.isAhead = false)
    (hok : ∀ l a, f l = .ok a → l.token ≠ .eof ∧ l.token.opensItem = false) :
    (take f).Halts dialect Within Within :=
  halts_take herror fun l a h =>
    ⟨(hok l a h).1, fun taken => (startsItem_append_singleton taken l).trans (hok l a h).2⟩

/-- An expected token that is there has been taken. -/
theorem halts_expect {t : Token} {after : List Lexeme → Prop} (ht : t ≠ .eof)
    (hafter : ∀ (taken : List Lexeme) (l : Lexeme), l.token = t → after (taken ++ [l])) :
    (expect t).Halts dialect Within after := by
  rw [expect_eq_take]
  refine halts_take (fun l reason h => ?_) fun l a h => ?_
  · split at h <;> cases h
    rfl
  · split at h
    · next hl => exact ⟨hl ▸ ht, fun taken => hafter taken l hl⟩
    · cases h

/-- What is expected within an item leaves the reader there. -/
theorem halts_expect_within {t : Token} (ht : t ≠ .eof) (hopens : t.opensItem = false) :
    (expect t).Halts dialect Within Within :=
  halts_expect ht fun taken l hl => by rw [Within, startsItem_append_singleton, hl, hopens]

/-- A whole number ends within an item. -/
theorem halts_uint : uint.Halts dialect Within Within := by
  rw [uint_eq_take]
  refine halts_value (fun l reason h => ?_) fun l n h => ?_
  · split at h <;> cases h
    rfl
  · cases hl : l.token <;> simp [hl] at h
    simp [Token.opensItem]

theorem halts_float : float.Halts dialect Within Within := by
  rw [float_eq_take]
  refine halts_value (fun l reason h => ?_) fun l x h => ?_
  · split at h <;> cases h
    rfl
  · cases hl : l.token <;> simp [hl] at h <;> simp [Token.opensItem]

theorem halts_choice (kind : ValueKind) (value? : Keyword → Option α) :
    (choice kind value?).Halts dialect Within Within := by
  rw [choice_eq_take]
  refine halts_value (fun l reason h => ?_) fun l a h => ?_
  · split at h <;> cases h
    rfl
  · cases hl : l.token <;> simp [hl, keywordValue?] at h
    simp [Token.opensItem]

/-- A register of a wrong class is taken all the same. -/
theorem haltsFrom_register (c : RegisterClass) (r : RootSignature.Register) :
    (register c).HaltsFrom dialect (.register r) := by
  intro stop taken l ls hl
  rw [register_eq_take, run_take, head_cons, hl]
  dsimp only
  by_cases hc : r.registerClass = c
  · rw [if_pos hc]
    exact .ok [l] rfl (by rw [Within, startsItem_append_singleton, hl]; rfl)
  · rw [if_neg hc]
    exact .error (Halt.next (l :: ls) rfl)

/-- A keyword in place of a value ends where the value would. -/
theorem Halts.orKeyword {r : Reader α} (hr : r.Halts dialect Within Within) (k : Keyword)
    (instead : α) : (Reader.orKeyword k instead r).Halts dialect Within Within := by
  intro stop taken ls hwithin
  rw [Reader.orKeyword, run_bind, run_peek, ← head_eq]
  dsimp only
  split
  · next hk =>
      obtain ⟨l, ls, rfl, hl⟩ := exists_cons_of_head hk (by simp)
      exact .ok [l] rfl (by rw [Within, startsItem_append_singleton, hl]; rfl)
  · exact hr stop taken ls hwithin

/-- What comes after a name that has been taken is within an item. -/
theorem Halts.afterName {r r' : Reader α} (hr : r.Halts dialect Within Within)
    (hrun : ∀ stop l ls, r'.run stop (l :: ls) = r.run stop ls) {t : Token} (ht : t.IsName) :
    r'.HaltsFrom dialect t := by
  intro stop taken l ls hl
  have hwithin : Within (taken ++ [l]) := by
    rw [Within, startsItem_append_singleton, hl, ht.opensItem]
  rw [hrun]
  exact (hr stop (taken ++ [l]) ls hwithin).append [l]

/-- A value behind an equals sign ends within an item. -/
theorem Halts.assigned {value : Reader α} (hvalue : value.Halts dialect Within Within) {t : Token}
    (ht : t.IsName) : (Reader.assigned value).HaltsFrom dialect t :=
  ((halts_expect_within (by simp) rfl).bind fun _ => hvalue).afterName (run_assigned value) ht

/-! ## Flags -/

section
variable {F : Type} [WrittenFlag F] {taken ls : List Lexeme}

/-- A lexeme that is no flag is refused as such, and this is noticed nowhere ahead. -/
theorem notAhead_of_ofLexeme {l : Lexeme} {reason : Reason}
    (h : (WrittenFlag.ofLexeme dialect l : Except Reason F) = .error reason)
    (taken : List Lexeme) : reason.isNoticedAhead taken = false := by
  unfold WrittenFlag.ofLexeme at h
  dsimp only at h
  split at h
  · cases h
    rfl
  · split at h <;> cases h
    rfl

/-- Behind a flag, no item starts. -/
theorem within_of_ofLexeme {l : Lexeme} {f : F} (h : WrittenFlag.ofLexeme dialect l = .ok f)
    (taken : List Lexeme) : Within (taken ++ [l]) := by
  obtain ⟨k, hk, -⟩ := ofLexeme_eq_ok_iff.1 h
  rw [Within, startsItem_append_singleton, hk]
  rfl

/-- A list of flags ends within an item. -/
theorem ends_runFlagList (canFollow : Token → Bool) (stop : Location) (taken ls : List Lexeme) :
    Ends dialect stop taken ls Within (runFlagList (F := F) dialect canFollow stop ls) := by
  fun_induction runFlagList (F := F) dialect canFollow stop ls generalizing taken with
  | case1 => exact .error (Halt.next [] rfl)
  | case2 l ls reason hl =>
      exact .error (Halt.next (l :: ls) (notAhead_of_ofLexeme hl taken))
  | case3 l ls f hl => exact .ok [l] rfl (within_of_ofLexeme hl taken)
  | case4 l f hl =>
      have hwithin := within_of_ofLexeme hl taken
      exact Ends.append [l]
        (.error (Halt.next [] hwithin))
  | case5 l f hl bar ls hbar answer rest hrun _ ih =>
      have hends := ih (taken ++ [l, bar])
      rw [hrun] at hends
      exact (hends.map _).append [l, bar]
  | case6 l f hl bar ls =>
      have hwithin := within_of_ofLexeme hl taken
      exact Ends.append [l]
        (.error (Halt.next (bar :: ls) hwithin))

/-- Flags halt also where an item could start, since nothing that they refuse is an item. -/
theorem halts_flags (canFollow : Token → Bool) (before : List Lexeme → Prop) :
    (flags dialect canFollow : Reader (FlagSet F)).Halts dialect before Within := by
  intro stop taken ls _
  rw [run_flags]
  split
  · next n hn =>
      split
      · obtain ⟨l, ls, rfl, hl⟩ := exists_cons_of_head hn (by simp)
        exact .ok [l] rfl (by rw [Within, startsItem_append_singleton, hl]; rfl)
      · exact .error (Halt.next ls rfl)
  · exact ends_runFlagList canFollow stop taken ls

/-- Flags that the version does not have are noticed at their name. -/
theorem haltsFrom_parameterFlags :
    (parameterFlags dialect : Reader (FlagSet F)).HaltsFrom dialect
      (.keyword (.parameter .flags)) := by
  unfold parameterFlags
  cases dialect.version with
  | v1_0 =>
      intro stop taken l ls hl
      exact .error (Halt.ahead (l :: ls) rfl (by simp))
  | v1_1 => exact (halts_flags canFollowParameter Within).assigned (.inl ⟨_, rfl⟩)

end

/-- The flags of a signature end within their parentheses. -/
theorem haltsFrom_rootFlags {t : Token} (ht : t.IsName) :
    (rootFlags dialect).HaltsFrom dialect t := by
  have hopen : (expect .leftParen).Halts dialect Within fun _ => True :=
    halts_expect (by simp) fun _ _ _ => trivial
  have hparens : (expect .leftParen >>= fun _ =>
      (flags dialect (· = .rightParen) : Reader (FlagSet RootFlag)) >>= fun fs =>
        expect .rightParen >>= fun _ => pure fs).Halts dialect Within Within :=
    hopen.bind fun _ =>
      (halts_flags _ _).bind fun fs =>
        (halts_expect_within (by simp) rfl).bind fun _ => halts_pure fs
  exact hparens.afterName (fun _ _ _ => rfl) ht

/-! ## Items -/

/-- Items start with names and end within. -/
structure ItemsHalt (dialect : Dialect) (item? : Token → Option (Item α)) : Prop where
  isName : ∀ t item, item? t = some item → t.IsName
  read : ∀ t item, item? t = some item → item.read.HaltsFrom dialect t

section
variable {item? : Token → Option (Item α)}

/-- An item of a list that halts ends within this item. -/
theorem ItemsHalt.ends_read (h : ItemsHalt dialect item?) {item : Item α} {ls : List Lexeme}
    (hitem : item? (head stop ls).token = some item) (taken : List Lexeme) :
    Ends dialect stop taken ls Within (item.read.run stop ls) := by
  have heof : (head stop ls).token ≠ .eof := by
    intro heof
    rw [heof, eof_of_isName h.isName] at hitem
    cases hitem
  obtain ⟨l, ls, rfl, -⟩ := exists_cons_of_head rfl heof
  exact h.read _ item hitem stop taken l ls rfl

/-- An item that fails halts. -/
theorem ItemsHalt.halt_of_read (h : ItemsHalt dialect item?) {item : Item α}
    {ls rest : List Lexeme} {e : ParseError} (hitem : item? (head stop ls).token = some item)
    (taken : List Lexeme) (hread : item.read.run stop ls = (.error e, rest)) :
    Halt dialect stop taken ls e rest := by
  have hends := h.ends_read hitem taken
  rw [hread] at hends
  cases hends with
  | error he => exact he

/-- An item that has been read ends where no other item starts. -/
theorem ItemsHalt.within_of_read (h : ItemsHalt dialect item?) {item : Item α}
    {ls rest : List Lexeme} {a : α} (hitem : item? (head stop ls).token = some item)
    (taken : List Lexeme) (hread : item.read.run stop ls = (.ok a, rest)) :
    ∃ front, ls = front ++ rest ∧ Within (taken ++ front) := by
  have hends := h.ends_read hitem taken
  rw [hread] at hends
  cases hends with
  | ok front hls hwithin => exact ⟨front, hls, hwithin⟩

/-- Where an item should start, items are read up to the parenthesis that closes them. -/
theorem ItemsHalt.ends_runItems (h : ItemsHalt dialect item?) (filled : List Slot)
    {taken ls : List Lexeme} (hstarts : AtItem taken) :
    Ends dialect stop taken ls Within (runItems item? stop filled ls) := by
  fun_induction runItems item? stop filled ls generalizing taken with
  | case1 filled ls => exact .error (.ahead ls hstarts (by simp))
  | case2 filled ls => exact .error (.ahead ls rfl (by simp))
  | case3 filled ls first item hitem _ e rest =>
      rename_i hread
      exact .error (h.halt_of_read hitem taken hread)
  | case4 filled ls first item hitem _ a =>
      rename_i hread
      obtain ⟨front, rfl, hwithin⟩ := h.within_of_read hitem taken hread
      exact Ends.append front (.error (Halt.next [] hwithin))
  | case5 filled ls first item hitem _ a separator rest hread =>
      rename_i hclose
      obtain ⟨front, rfl, -⟩ := h.within_of_read hitem taken hread
      have hwithin : Within ((taken ++ front) ++ [separator]) := by
        rw [Within, startsItem_append_singleton, hclose]
        rfl
      exact Ends.append front (.ok [separator] rfl hwithin)
  | case6 filled ls first item hitem _ a separator rest hread hcomma answer rest' hrec =>
      rename_i ih
      obtain ⟨front, rfl, -⟩ := h.within_of_read hitem taken hread
      have hnext : AtItem ((taken ++ front) ++ [separator]) := by
        rw [AtItem, startsItem_append_singleton, hcomma]
        rfl
      have hends := ih hnext
      rw [hrec] at hends
      exact Ends.append front (Ends.append [separator] (hends.map _))
  | case7 filled ls first item hitem _ a separator rest hread =>
      obtain ⟨front, rfl, hwithin⟩ := h.within_of_read hitem taken hread
      exact Ends.append front
        (.error (Halt.next (separator :: rest) hwithin))

/-- A missing parameter is noticed at the parenthesis that closes the items, the last lexeme that
has been taken. -/
theorem ItemsHalt.inParens (h : ItemsHalt dialect item?)
    (ofItems : List α → Except RequiredParameter β) :
    (Reader.inParens item? ofItems).Halts dialect Within Within := by
  intro stop taken ls hwithin
  rw [run_inParens]
  split
  · next hopen =>
      obtain ⟨l, ls, rfl, hl⟩ := exists_cons_of_head hopen (by simp)
      have hstarts : AtItem (taken ++ [l]) := by
        rw [AtItem, startsItem_append_singleton, hl]
        rfl
      have hends : Ends dialect stop (taken ++ [l]) ls Within (runItems item? stop [] ls) :=
        h.ends_runItems [] hstarts
      refine Ends.append [l] ?_
      rw [List.tail_cons]
      generalize hrun : runItems item? stop [] ls = outcome at hends ⊢
      cases hends with
      | error he => exact .error he
      | @ok answer rest front hls hafter =>
          obtain ⟨as, close⟩ := answer
          dsimp only [goOn, afterItems]
          split
          · exact .ok front hls hafter
          · next missing _ =>
              obtain ⟨⟨front', hclose⟩, -⟩ := close_of_runItems hrun
              exact .error ⟨front', close :: rest, .missingParameter missing, hclose.symm, rfl,
                rfl, by simp⟩
  · exact .error (Halt.next ls hwithin)

/-- After its opening word, a construct ends within whatever it is an item of. -/
theorem ItemsHalt.construct (h : ItemsHalt dialect item?)
    (ofItems : List α → Except RequiredParameter β) {t : Token} (ht : t.IsName) :
    (Reader.construct item? ofItems).HaltsFrom dialect t :=
  (h.inParens ofItems).afterName (run_construct item? ofItems) ht

end

/-! ## Constructs and declarations -/

/-- All readers halt like those of single values. -/
theorem halts_compositional : Compositional dialect (fun _ r => r.Halts dialect Within Within)
    (fun _ t r => t.IsName → r.HaltsFrom dialect t) where
  uint := halts_uint
  float := halts_float
  choice := halts_choice
  orKeyword k instead hr := hr.orKeyword k instead
  mapValue f hr := hr.map f
  register c r _ := haltsFrom_register c r
  assigned _ hr ht := hr.assigned ht
  parameterFlags _ _ := haltsFrom_parameterFlags
  rootFlags _ ht := haltsFrom_rootFlags ht
  construct ofItems _ hname hread ht :=
    ItemsHalt.construct ⟨hname, fun t item hitem => hread t item hitem (hname t item hitem)⟩
      ofItems ht
  map f hr ht := (hr ht).map f

end Reader

/-- After its opening word, a declaration halts like what it is made of. -/
theorem Declaration.haltsFrom {t : Token} {reader : Reader Declaration}
    (h : ofToken? dialect t = some reader) : reader.HaltsFrom dialect t :=
  halts_compositional.declaration h (Declaration.isName t reader h)

/-- The error that stops the reading of declarations tells what is left. -/
theorem halt_of_readDeclarations {flagsDeclared : Bool} {ls : List Lexeme} {e : ParseError}
    (taken : List Lexeme)
    (h : (readDeclarations dialect stop flagsDeclared ls).failure? = some e) :
    Halt dialect stop taken ls e (readDeclarations dialect stop flagsDeclared ls).rest := by
  fun_induction readDeclarations dialect stop flagsDeclared ls generalizing taken with
  | case1 => cases h
  | case2 flagsDeclared first ls =>
      cases h
      exact Halt.ahead (first :: ls) rfl (by simp)
  | case3 flagsDeclared first ls _ hnone =>
      cases h
      refine ⟨[], first :: ls, _, rfl, rfl, rfl, fun _ _ => ?_⟩
      rw [readDeclarations_cons, if_neg (by simp), hnone]
  | case4 flagsDeclared first ls _ reader hreader e' rest hrun =>
      cases h
      have hends := Declaration.haltsFrom hreader stop taken first ls rfl
      rw [hrun] at hends
      cases hends with
      | error he => exact he
  | case5 => cases h
  | case6 flagsDeclared first ls _ reader hreader d separator rest hrun _ reading ih =>
      have hends := Declaration.haltsFrom hreader stop taken first ls rfl
      rw [hrun] at hends
      cases hends with
      | ok front hls _ =>
          rw [hls]
          exact Halt.append front (Halt.append [separator] (ih _ h))
  | case7 flagsDeclared first ls _ reader hreader d separator rest hrun =>
      cases h
      have hends := Declaration.haltsFrom hreader stop taken first ls rfl
      rw [hrun] at hends
      cases hends with
      | ok front hls _ =>
          rw [hls]
          exact Halt.append front (Halt.next (separator :: rest) rfl)

/-- Without an error nothing is left. -/
theorem rest_of_readDeclarations {flagsDeclared : Bool} {ls : List Lexeme}
    (h : (readDeclarations dialect stop flagsDeclared ls).failure? = none) :
    (readDeclarations dialect stop flagsDeclared ls).rest = [] := by
  fun_induction readDeclarations dialect stop flagsDeclared ls with
  | case1 | case5 => rfl
  | case2 | case3 | case4 | case7 => cases h
  | case6 flagsDeclared first ls _ reader hreader d separator rest hrun _ reading ih => exact ih h

end RootSignature
