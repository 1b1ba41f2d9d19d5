import RootSignature.Grammar.Declaration

/-!
# How readers run

Equations for the runs of readers, so that what follows does not open their definitions. Most
readers of values take one lexeme and go by it alone (`Reader.take`); all others are put together
from these. The loops (`Reader.runItems`, `readDeclarations`) have one equation for each way in
which a step of theirs ends well. Where two runs are compared step by step, what comes after a step
is a function of its own (`Reader.goOn`, `Reader.afterItem`, `afterOutcome`).
-/

namespace RootSignature.Reader

variable {α β : Type}

/-- The lexeme that is next in a list, behind which the end stands. -/
def head (stop : Location) (ls : List Lexeme) : Lexeme := ls.headD (.endAt stop)

theorem head_eq (stop : Location) (ls : List Lexeme) : head stop ls = ls.headD (.endAt stop) := rfl

@[simp] theorem head_nil (stop : Location) : head stop [] = .endAt stop := rfl

@[simp] theorem head_cons (stop : Location) (l : Lexeme) (ls : List Lexeme) :
    head stop (l :: ls) = l := rfl

/-- A token other than that of the end is the token of a lexeme in the list. -/
theorem exists_cons_of_head {stop : Location} {ls : List Lexeme} {t : Token}
    (h : (head stop ls).token = t) (ht : t ≠ .eof) : ∃ l ls', ls = l :: ls' ∧ l.token = t := by
  cases ls with
  | nil => exact absurd h.symm ht
  | cons l ls => exact ⟨l, ls, rfl, h⟩

/-- What is left of a list is the end of it. -/
theorem suffix_of_run {r : Reader α} {stop : Location} {ls rest : List Lexeme}
    {answer : Except ParseError α} (h : r.run stop ls = (answer, rest)) : rest <:+ ls := by
  have hsuffix := r.rest_suffix stop ls
  rwa [h] at hsuffix

/-- Two readers in a row answer a value if the first answers one and the second goes on with it. -/
theorem run_bind_eq_ok_iff {r : Reader α} {f : α → Reader β} {stop : Location}
    {ls rest : List Lexeme} {b : β} :
    (r >>= f).run stop ls = (.ok b, rest) ↔
      ∃ a rest', r.run stop ls = (.ok a, rest') ∧ (f a).run stop rest' = (.ok b, rest) := by
  rw [run_bind]
  obtain ⟨answer, rest'⟩ := r.run stop ls
  cases answer <;> simp [and_assoc]

/-- Of two readers one after the other, the first one fails or the second one does behind it. -/
theorem run_bind_eq_error_iff {r : Reader α} {f : α → Reader β} {stop : Location}
    {ls rest : List Lexeme} {e : ParseError} :
    (r >>= f).run stop ls = (.error e, rest) ↔ r.run stop ls = (.error e, rest) ∨
      ∃ a rest', r.run stop ls = (.ok a, rest') ∧ (f a).run stop rest' = (.error e, rest) := by
  rw [run_bind]
  obtain ⟨answer, rest'⟩ := r.run stop ls
  cases answer <;> simp [and_assoc]

/-- What is read is what is made of a result, and the same lexemes are left. -/
theorem run_map_eq_ok_iff {r : Reader α} {f : α → β} {stop : Location} {ls rest : List Lexeme}
    {b : β} : (f <$> r).run stop ls = (.ok b, rest) ↔
      ∃ a, r.run stop ls = (.ok a, rest) ∧ f a = b := by
  rw [run_map]
  obtain ⟨answer, rest'⟩ := r.run stop ls
  cases answer with
  | error e => simp
  | ok a => simpa [and_assoc] using and_comm

theorem run_map_eq_error_iff {r : Reader α} {f : α → β} {stop : Location} {ls rest : List Lexeme}
    {e : ParseError} :
    (f <$> r).run stop ls = (.error e, rest) ↔ r.run stop ls = (.error e, rest) := by
  rw [run_map]
  obtain ⟨answer, rest'⟩ := r.run stop ls
  cases answer <;> simp

/-- What comes of an outcome if a value is gone on with, and an error is the end. -/
def goOn (k : α → List Lexeme → Except ParseError β × List Lexeme) :
    Except ParseError α × List Lexeme → Except ParseError β × List Lexeme
  | (.ok a, rest) => k a rest
  | (.error e, rest) => (.error e, rest)

/-- If reading has gone on to an answer, there was an answer before. -/
theorem goOn_eq_ok {k : α → List Lexeme → Except ParseError β × List Lexeme}
    {outcome : Except ParseError α × List Lexeme} {b : β} {rest : List Lexeme}
    (h : goOn k outcome = (.ok b, rest)) :
    ∃ a rest', outcome = (.ok a, rest') ∧ k a rest' = (.ok b, rest) := by
  obtain ⟨answer, rest'⟩ := outcome
  cases answer with
  | error e => cases h
  | ok a => exact ⟨a, rest', rfl, h⟩

/-- Two readers one after the other: the second one goes on with what the first one has left. -/
theorem run_bind_eq_goOn (r : Reader α) (f : α → Reader β) (stop : Location) (ls : List Lexeme) :
    (r >>= f).run stop ls = goOn (fun a rest => (f a).run stop rest) (r.run stop ls) := by
  rw [run_bind]
  obtain ⟨answer, rest⟩ := r.run stop ls
  cases answer <;> rfl

/-! ## Readers that take one lexeme -/

/-- Takes the next lexeme, and answers or refuses by that lexeme alone. -/
def take (f : Lexeme → Except Reason α) : Reader α := do
  let l ← next
  match f l with
  | .ok a => pure a
  | .error reason => fail reason l

/-- A reader of one lexeme takes it and refuses it or makes something of it. -/
theorem run_take (f : Lexeme → Except Reason α) (stop : Location) (ls : List Lexeme) :
    (take f).run stop ls =
      match f (head stop ls) with
      | .ok a => (.ok a, ls.tail)
      | .error reason => (.error (.atLexeme reason (head stop ls)), ls.tail) := by
  rw [take, run_bind, run_next, ← head_eq]
  dsimp only
  cases f (head stop ls) <;> rfl

/-- An expected token is read as one lexeme. -/
theorem expect_eq_take (t : Token) : expect t = take fun l =>
    if l.token = t then .ok l else .error (.unexpectedToken l.text) := by
  ext1 stop ls
  rw [run_take, expect, run_bind, run_next, ← head_eq]
  dsimp only
  split <;> rfl

theorem uint_eq_take : uint = take fun l =>
    match l.token with
    | .uint n => .ok n
    | _ => .error (.unexpectedToken l.text) := by
  ext1 stop ls
  rw [run_take, uint, run_bind, run_next, ← head_eq]
  dsimp only
  cases (head stop ls).token <;> rfl

theorem float_eq_take : float = take fun l =>
    match l.token with
    | .uint n => .ok (.ofInt n.toNat)
    | .int n => .ok (.ofInt n.toInt)
    | .float x => .ok x
    | _ => .error (.expectedFloat l.text) := by
  ext1 stop ls
  rw [run_take, float, run_bind, run_next, ← head_eq]
  dsimp only
  cases (head stop ls).token <;> rfl

/-- The value that a token stands for if it is a keyword. -/
def keywordValue? (value? : Keyword → Option α) : Token → Option α
  | .keyword k => value? k
  | _ => none

theorem choice_eq_take (kind : ValueKind) (value? : Keyword → Option α) :
    choice kind value? = take fun l =>
      match keywordValue? value? l.token with
      | some a => .ok a
      | none => .error (.unexpectedValue kind l.text) := by
  ext1 stop ls
  rw [run_take, choice, run_bind, run_next, ← head_eq]
  dsimp only
  cases (head stop ls).token with
  | keyword k => cases h : value? k <;> simp [keywordValue?, h] <;> rfl
  | _ => rfl

/-- A register is read as one lexeme, and its class is looked at last. -/
theorem register_eq_take (expected : RegisterClass) : register expected = take fun l =>
    match l.token with
    | .register r =>
      if r.registerClass = expected then .ok r.index
      else .error (.incorrectRegisterClass l.text expected)
    | _ => .error (.expectedRegister l.text) := by
  ext1 stop ls
  rw [run_take, register, run_bind, run_next, ← head_eq]
  dsimp only
  cases (head stop ls).token with
  | register r => dsimp only; split <;> rfl
  | _ => rfl

/-! ## What follows a lexeme -/

/-- A reader of any lexeme goes on behind it. -/
theorem run_next_bind (f : Lexeme → Reader β) (stop : Location) (l : Lexeme) (ls : List Lexeme) :
    (next >>= f).run stop (l :: ls) = (f l).run stop ls := rfl

/-- An expected token is taken, and any other refused. -/
theorem run_expect_bind (t : Token) (f : Lexeme → Reader β) (stop : Location) (ls : List Lexeme) :
    (expect t >>= f).run stop ls =
      if (head stop ls).token = t then (f (head stop ls)).run stop ls.tail
      else (.error (.atLexeme (.unexpectedToken (head stop ls).text)
        (head stop ls)), ls.tail) := by
  rw [run_bind, expect_eq_take, run_take]
  by_cases h : (head stop ls).token = t <;> simp [h]

/-- What goes on after an expected token answers a value if the token is there. -/
theorem run_expect_bind_eq_ok_iff {t : Token} (ht : t ≠ .eof) {f : Lexeme → Reader β}
    {stop : Location} {ls rest : List Lexeme} {b : β} :
    (expect t >>= f).run stop ls = (.ok b, rest) ↔
      ∃ l ls', ls = l :: ls' ∧ l.token = t ∧ (f l).run stop ls' = (.ok b, rest) := by
  rw [run_expect_bind]
  refine ⟨fun h => ?_, fun h => ?_⟩
  · split at h
    · next hhead =>
        obtain ⟨l, ls, rfl, hl⟩ := exists_cons_of_head hhead ht
        exact ⟨l, ls, rfl, hl, h⟩
    · cases h
  · obtain ⟨l, ls, rfl, hl, hrun⟩ := h
    rwa [head_cons, if_pos hl]

/-- A parameter from its name on: an equals sign has to follow, and then the value. -/
theorem run_assigned (value : Reader α) (stop : Location) (l : Lexeme) (ls : List Lexeme) :
    (assigned value).run stop (l :: ls) = (expect .equals >>= fun _ => value).run stop ls := rfl

/-! ## Flags -/

/-- A flag is a keyword of its family. A global signature may not call itself local. -/
theorem ofLexeme_eq_ok_iff {F : Type} [WrittenFlag F] {dialect : Dialect} {l : Lexeme} {f : F} :
    WrittenFlag.ofLexeme dialect l = .ok f ↔
      ∃ k, l.token = .keyword k ∧ WrittenFlag.ofKeyword? k = some f ∧
        ¬ (k = .rootFlag .localRootSignature ∧ dialect.isGlobal) := by
  unfold WrittenFlag.ofLexeme
  cases l.token with
  | keyword k =>
      cases hk : (WrittenFlag.ofKeyword? k : Option F) with
      | none => simp [hk]
      | some f' =>
          simp only [Token.keyword.injEq, hk, exists_eq_left']
          split
          · next hlocal => exact ⟨fun h => (by cases h), fun h => absurd hlocal h.2⟩
          · next hlocal => simpa using fun _ => not_and.1 hlocal
  | _ => simp

section
variable {F : Type} [WrittenFlag F] {dialect : Dialect} {canFollow : Token → Bool}
  {stop : Location} {l bar : Lexeme} {ls : List Lexeme} {f : F}

/-- The last flag of a list is followed by a token that can follow the list. -/
theorem runFlagList_last (hl : WrittenFlag.ofLexeme dialect l = .ok f)
    (hfollow : canFollow (head stop ls).token = true) :
    runFlagList (F := F) dialect canFollow stop (l :: ls) = (.ok {f}, ls) := by
  rw [runFlagList, hl, ← head_eq]
  dsimp only
  rw [if_pos hfollow]

/-- Any other flag is followed by a bar and by more flags. -/
theorem runFlagList_more (hl : WrittenFlag.ofLexeme dialect l = .ok f)
    (hbar : bar.token = .verticalBar) (hfollow : canFollow .verticalBar = false) :
    runFlagList (F := F) dialect canFollow stop (l :: bar :: ls) =
      ((runFlagList (F := F) dialect canFollow stop ls).1.map ({f} ∪ ·),
        (runFlagList (F := F) dialect canFollow stop ls).2) := by
  rw [runFlagList, hl, ← head_eq, head_cons, hbar, hfollow]
  dsimp only
  rw [if_neg Bool.false_ne_true, if_pos hbar]

/-- What comes after a flag: a token that can follow the list, or a bar and more flags. -/
def afterFlag (dialect : Dialect) (canFollow : Token → Bool) (f : F) : Reader (FlagSet F) := do
  let l ← peek
  if canFollow l.token then pure {f}
  else
    let _ ← expect .verticalBar
    ({f} ∪ ·) <$> flagList dialect canFollow

/-- Behind a flag, the list ends at a token that can follow it, or goes on behind a bar. -/
theorem run_afterFlag (dialect : Dialect) (canFollow : Token → Bool) (f : F) (stop : Location)
    (ls : List Lexeme) :
    (afterFlag dialect canFollow f).run stop ls =
      if canFollow (head stop ls).token then (.ok {f}, ls)
      else (expect .verticalBar >>= fun _ => ({f} ∪ ·) <$> flagList dialect canFollow).run stop
        ls := by
  rw [afterFlag, run_bind, run_peek, ← head_eq]
  dsimp only
  split <;> rfl

/-- A list of flags starts with a flag. -/
theorem runFlagList_cons (dialect : Dialect) (canFollow : Token → Bool) (stop : Location)
    (l : Lexeme) (ls : List Lexeme) :
    runFlagList (F := F) dialect canFollow stop (l :: ls) =
      match (WrittenFlag.ofLexeme dialect l : Except Reason F) with
      | .ok f => (afterFlag dialect canFollow f).run stop ls
      | .error reason => (.error (.atLexeme reason l), ls) := by
  rw [runFlagList]
  cases (WrittenFlag.ofLexeme dialect l : Except Reason F) with
  | error reason => rfl
  | ok f =>
      dsimp only
      rw [run_afterFlag, ← head_eq]
      split
      · rfl
      · rw [run_expect_bind]
        cases ls with
        | nil => rfl
        | cons bar ls =>
            by_cases hbar : bar.token = .verticalBar
            · have hrun : (flagList dialect canFollow : Reader (FlagSet F)).run stop ls =
                  runFlagList dialect canFollow stop ls := rfl
              simp only [head_cons, List.tail_cons, hbar, ↓reduceIte, run_map, hrun]
              obtain ⟨answer, rest⟩ := runFlagList (F := F) dialect canFollow stop ls
              cases answer <;> rfl
            · simp [hbar]

/-- Flags are a number, or else a list of words. -/
theorem run_flags (dialect : Dialect) (canFollow : Token → Bool) (stop : Location)
    (ls : List Lexeme) :
    (flags dialect canFollow : Reader (FlagSet F)).run stop ls =
      match (head stop ls).token with
      | .uint n =>
        if n = 0 then (.ok ∅, ls.tail)
        else (.error (.atLexeme (.invalidFlagNumber (WrittenFlag.family F) (head stop ls).text)
          (head stop ls)), ls.tail)
      | _ => runFlagList dialect canFollow stop ls := by
  rw [flags, run_bind, run_peek, ← head_eq]
  dsimp only
  cases (head stop ls).token with
  | uint n =>
      dsimp only
      rw [run_bind, run_next]
      dsimp only
      split <;> rfl
  | _ => rfl

end

/-! ## Items -/

/-- One step of reading items, and then the rest. -/
theorem runItems_eq (item? : Token → Option (Item α)) (stop : Location) (filled : List Slot)
    (ls : List Lexeme) :
    runItems item? stop filled ls =
      match item? (head stop ls).token with
      | none =>
        (.error (.atLexeme (.unexpectedToken (head stop ls).text)
          (head stop ls)), ls)
      | some item =>
        match item.slot?.filter (· ∈ filled) with
        | some slot =>
          (.error (.atLexeme (.duplicateParameter slot.label) (head stop ls)), ls)
        | none =>
          match item.read.run stop ls with
          | (.error e, rest) => (.error e, rest)
          | (.ok _, []) => (.error (.atLexeme (.unexpectedToken "") (.endAt stop)), [])
          | (.ok a, separator :: rest) =>
            match separator.token with
            | .rightParen => (.ok ([a], separator), rest)
            | .comma =>
              let (answer, rest') := runItems item? stop (item.slot?.toList ++ filled) rest
              (answer.map fun (as, close) => (a :: as, close), rest')
            | _ => (.error (.atLexeme (.unexpectedToken separator.text) separator), rest) := by
  rw [runItems, head_eq]
  dsimp only
  cases item? (ls.headD (.endAt stop)).token with
  | none => rfl
  | some item =>
      dsimp only
      cases item.slot?.filter (· ∈ filled) with
      | some slot => rfl
      | none =>
          dsimp only
          cases item.read.run stop ls with
          | mk answer rest => cases answer <;> cases rest <;> rfl

section
variable {item? : Token → Option (Item α)} {stop : Location} {filled : List Slot}
  {ls : List Lexeme} {item : Item α} {a : α} {separator : Lexeme} {rest : List Lexeme}

/-- An item whose slot is free is no duplicate. -/
theorem filter_slot?_eq_none (h : ∀ s ∈ item.slot?, s ∉ filled) :
    item.slot?.filter (· ∈ filled) = none := by
  cases hs : item.slot? with
  | none => rfl
  | some s => simpa using h s hs

/-- The last item of a list is followed by the closing parenthesis. -/
theorem runItems_last (hitem : item? (head stop ls).token = some item)
    (hslot : ∀ s ∈ item.slot?, s ∉ filled)
    (hread : item.read.run stop ls = (.ok a, separator :: rest))
    (hclose : separator.token = .rightParen) :
    runItems item? stop filled ls = (.ok ([a], separator), rest) := by
  rw [runItems_eq, hitem]
  dsimp only
  rw [filter_slot?_eq_none hslot]
  dsimp only
  rw [hread]
  dsimp only
  rw [hclose]

/-- Any other item is followed by a comma and by more items. -/
theorem runItems_more (hitem : item? (head stop ls).token = some item)
    (hslot : ∀ s ∈ item.slot?, s ∉ filled)
    (hread : item.read.run stop ls = (.ok a, separator :: rest))
    (hcomma : separator.token = .comma) :
    runItems item? stop filled ls =
      ((runItems item? stop (item.slot?.toList ++ filled) rest).1.map
        fun (as, close) => (a :: as, close),
       (runItems item? stop (item.slot?.toList ++ filled) rest).2) := by
  rw [runItems_eq, hitem]
  dsimp only
  rw [filter_slot?_eq_none hslot]
  dsimp only
  rw [hread]
  dsimp only
  rw [hcomma]

end

/-- What comes after an item: a closing parenthesis, or a comma and more items. -/
def afterItem (item? : Token → Option (Item α)) (stop : Location) (filled : List Slot) (a : α) :
    List Lexeme → Except ParseError (List α × Lexeme) × List Lexeme
  | [] => (.error (.atLexeme (.unexpectedToken "") (.endAt stop)), [])
  | separator :: rest =>
    match separator.token with
    | .rightParen => (.ok ([a], separator), rest)
    | .comma =>
      goOn (fun (as, close) rest => (.ok (a :: as, close), rest)) (runItems item? stop filled rest)
    | _ => (.error (.atLexeme (.unexpectedToken separator.text) separator), rest)

/-- Behind an item, a list is closed or goes on behind a comma. -/
theorem afterItem_cons (item? : Token → Option (Item α)) (stop : Location) (filled : List Slot)
    (a : α) (separator : Lexeme) (rest : List Lexeme) :
    afterItem item? stop filled a (separator :: rest) =
      match separator.token with
      | .rightParen => (.ok ([a], separator), rest)
      | .comma =>
        goOn (fun (as, close) rest => (.ok (a :: as, close), rest))
          (runItems item? stop filled rest)
      | _ => (.error (.atLexeme (.unexpectedToken separator.text) separator), rest) := rfl

/-- Items from the start of one on that may be given. -/
theorem runItems_eq_goOn {item? : Token → Option (Item α)} {filled : List Slot} {ls : List Lexeme}
    {item : Item α} (hitem : item? (head stop ls).token = some item)
    (hfilled : item.slot?.filter (· ∈ filled) = none) :
    runItems item? stop filled ls =
      goOn (afterItem item? stop (item.slot?.toList ++ filled)) (item.read.run stop ls) := by
  rw [runItems_eq, hitem]
  dsimp only
  rw [hfilled]
  dsimp only
  obtain ⟨answer, rest⟩ := item.read.run stop ls
  cases answer with
  | error e => rfl
  | ok a =>
      cases rest with
      | nil => rfl
      | cons separator rest =>
          dsimp only [goOn, afterItem]
          obtain ⟨answer, rest⟩ := runItems item? stop (item.slot?.toList ++ filled) rest
          cases answer <;> rfl

/-- A construct behind its opening word: a list of items in parentheses, and what is made of it. -/
def inParens (item? : Token → Option (Item α)) (ofItems : List α → Except RequiredParameter β) :
    Reader β := do
  let _ ← expect .leftParen
  let (as, close) ← itemList item?
  match ofItems as with
  | .ok b => pure b
  | .error missing => fail (.missingParameter missing) close

/-- The opening word of a construct is taken unseen. -/
theorem run_construct (item? : Token → Option (Item α))
    (ofItems : List α → Except RequiredParameter β) (stop : Location) (l : Lexeme)
    (ls : List Lexeme) :
    (construct item? ofItems).run stop (l :: ls) = (inParens item? ofItems).run stop ls := rfl

/-- What comes of the items of a construct. -/
def afterItems (ofItems : List α → Except RequiredParameter β) :
    List α × Lexeme → List Lexeme → Except ParseError β × List Lexeme
  | (as, close), rest =>
    match ofItems as with
    | .ok b => (.ok b, rest)
    | .error missing => (.error (.atLexeme (.missingParameter missing) close), rest)

/-- Parentheses hold items, of which something is made behind them. -/
theorem run_inParens (item? : Token → Option (Item α))
    (ofItems : List α → Except RequiredParameter β) (stop : Location) (ls : List Lexeme) :
    (inParens item? ofItems).run stop ls =
      if (head stop ls).token = .leftParen then
        goOn (afterItems ofItems) (runItems item? stop [] ls.tail)
      else (.error (.atLexeme (.unexpectedToken (head stop ls).text) (head stop ls)), ls.tail) := by
  rw [inParens, run_expect_bind]
  split
  · rw [run_bind]
    show _ = goOn (afterItems ofItems) ((itemList item?).run stop ls.tail)
    obtain ⟨answer, rest⟩ := (itemList item?).run stop ls.tail
    cases answer with
    | error e => rfl
    | ok answer =>
        obtain ⟨as, close⟩ := answer
        dsimp only [goOn, afterItems]
        cases ofItems as <;> rfl
  · rfl

end RootSignature.Reader

namespace RootSignature

/-! ## Declarations -/

/-- One step of reading declarations, and then the rest. -/
theorem readDeclarations_cons (dialect : Dialect) (stop : Location) (flagsDeclared : Bool)
    (head : Lexeme) (ls : List Lexeme) :
    readDeclarations dialect stop flagsDeclared (head :: ls) =
      if head.token = .keyword (.opening .rootFlags) ∧ flagsDeclared then
        ⟨[], some (.atLexeme .rootFlagsRedefined head), head :: ls⟩
      else
        match Declaration.ofToken? dialect head.token with
        | none => ⟨[], some (.atLexeme (.unexpectedDeclaration head.text) head), head :: ls⟩
        | some reader =>
          match reader.run stop (head :: ls) with
          | (.error e, rest) => ⟨[], some e, rest⟩
          | (.ok d, []) => ⟨[d], none, []⟩
          | (.ok d, separator :: rest) =>
            if separator.token = .comma then
              let reading := readDeclarations dialect stop (flagsDeclared || d.isRootFlags) rest
              { reading with declarations := d :: reading.declarations }
            else ⟨[d], some (.atLexeme (.expectedComma separator.text) separator), rest⟩ := by
  rw [readDeclarations]
  split
  · rfl
  · cases Declaration.ofToken? dialect head.token with
    | none => rfl
    | some reader =>
        dsimp only
        cases reader.run stop (head :: ls) with
        | mk answer rest => cases answer <;> cases rest <;> rfl

/-- What comes after a declaration: the end, or a comma and more declarations. -/
def afterDeclaration (dialect : Dialect) (stop : Location) (flagsDeclared : Bool)
    (d : Declaration) : List Lexeme → Reading
  | [] => ⟨[d], none, []⟩
  | separator :: rest =>
    if separator.token = .comma then
      let reading := readDeclarations dialect stop flagsDeclared rest
      { reading with declarations := d :: reading.declarations }
    else ⟨[d], some (.atLexeme (.expectedComma separator.text) separator), rest⟩

/-- What comes of an attempt to read a declaration: its error, or what comes after it. -/
def afterOutcome (dialect : Dialect) (stop : Location) (flagsDeclared : Bool) :
    Except ParseError Declaration × List Lexeme → Reading
  | (.error e, rest) => ⟨[], some e, rest⟩
  | (.ok d, rest) => afterDeclaration dialect stop (flagsDeclared || d.isRootFlags) d rest

/-- Declarations from the start of one on that may be made. -/
theorem readDeclarations_eq_afterOutcome {flagsDeclared : Bool} {first : Lexeme}
    {ls : List Lexeme} {reader : Reader Declaration}
    (hfirst : ¬ (first.token = .keyword (.opening .rootFlags) ∧ flagsDeclared))
    (hreader : Declaration.ofToken? dialect first.token = some reader) :
    readDeclarations dialect stop flagsDeclared (first :: ls) =
      afterOutcome dialect stop flagsDeclared (reader.run stop (first :: ls)) := by
  rw [readDeclarations_cons, if_neg hfirst, hreader]
  dsimp only
  obtain ⟨answer, rest⟩ := reader.run stop (first :: ls)
  cases answer with
  | error e => rfl
  | ok d => cases rest <;> rfl

end RootSignature
