import RootSignature.Proofs.Error.Blame

/-!
# Two dialects side by side

A strict dialect refuses more than a lenient one, and is otherwise the same. Reading a list of
lexemes in both gives the same outcome, or else the strict dialect refuses a lexeme where the
lenient one goes on (`Departure`): then the lenient dialect takes this lexeme, and an error of its
own blames a later one.

What the two dialects do differently is said for the flags of parameters and for those of the whole
signature (`DialectsNarrow`). `narrows_readDeclarations` carries it to all declarations: up to the
departure the two readings are in step.
-/

namespace RootSignature

open Reader

variable {α β : Type} {Departs : Reason → Lexeme → Prop} {stop : Location}

/-- The strict outcome refuses a lexeme of the list. The lenient one leaves a part of the lexemes
behind it, and blames one of these if it is an error. -/
structure Departure (Departs : Reason → Lexeme → Prop) (stop : Location) (ls : List Lexeme)
    (strict lenient : Except ParseError α × List Lexeme) (tail : List Lexeme) : Prop where
  refused : ∃ reason l, Departs reason l ∧ strict.1 = .error (.atLexeme reason l) ∧ l :: tail <:+ ls
  rest : lenient.2 <:+ tail
  error : ∀ e, lenient.1 = .error e → e.Within stop tail

/-- Two outcomes are the same, or the strict one departs. -/
def Narrows (Departs : Reason → Lexeme → Prop) (stop : Location) (ls : List Lexeme)
    (strict lenient : Except ParseError α × List Lexeme) : Prop :=
  strict = lenient ∨ ∃ tail, Departure Departs stop ls strict lenient tail

namespace Departure

variable {ls tail : List Lexeme} {strict lenient : Except ParseError α × List Lexeme}

/-- A departure in a part of a list that goes up to its end is one in the list. -/
theorem mono (h : Departure Departs stop ls strict lenient tail) {ls' : List Lexeme}
    (hsuffix : ls <:+ ls') : Departure Departs stop ls' strict lenient tail := by
  obtain ⟨reason, l, hdeparts, hstrict, hl⟩ := h.refused
  exact ⟨⟨reason, l, hdeparts, hstrict, hl.trans hsuffix⟩, h.rest, h.error⟩

/-- Whatever follows a departure, the strict outcome stays the error that it is, and the lenient one
takes what it takes behind the lexeme that has been refused. -/
theorem goOn (h : Departure Departs stop ls strict lenient tail)
    (k : α → List Lexeme → Except ParseError β × List Lexeme)
    {k' : α → List Lexeme → Except ParseError β × List Lexeme}
    (hk' : ∀ a rest, lenient = (.ok a, rest) → rest <:+ tail →
      (k' a rest).2 <:+ rest ∧ ∀ e, (k' a rest).1 = .error e → e.Within stop tail) :
    Departure Departs stop ls (Reader.goOn k strict) (Reader.goOn k' lenient) tail := by
  obtain ⟨reason, l, hdeparts, hstrict, hl⟩ := h.refused
  have hrest := h.rest
  have herror := h.error
  obtain ⟨strict, strictRest⟩ := strict
  obtain rfl : strict = .error (.atLexeme reason l) := hstrict
  obtain ⟨answer, rest⟩ := lenient
  cases answer with
  | error e =>
      refine ⟨⟨reason, l, hdeparts, rfl, hl⟩, hrest, fun e' he => ?_⟩
      cases he
      exact herror e rfl
  | ok a =>
      obtain ⟨hsuffix, hwithin⟩ := hk' a rest rfl hrest
      exact ⟨⟨reason, l, hdeparts, rfl, hl⟩, hsuffix.trans hrest, hwithin⟩

end Departure

/-- A departure is found in a longer list, too. -/
theorem Narrows.mono {ls ls' : List Lexeme} {strict lenient : Except ParseError α × List Lexeme}
    (h : Narrows Departs stop ls strict lenient) (hsuffix : ls <:+ ls') :
    Narrows Departs stop ls' strict lenient := by
  rcases h with heq | ⟨tail, hdep⟩
  · exact .inl heq
  · exact .inr ⟨tail, hdep.mono hsuffix⟩

namespace Reader

/-- From a token on, the outcomes of the strict reader narrow those of the lenient one. -/
def NarrowsAt (Departs : Reason → Lexeme → Prop) (t : Token) (strict lenient : Reader α) : Prop :=
  ∀ stop l ls, l.token = t →
    Narrows Departs stop (l :: ls) (strict.run stop (l :: ls)) (lenient.run stop (l :: ls))

theorem NarrowsAt.refl (t : Token) (r : Reader α) : r.NarrowsAt Departs t r :=
  fun _ _ _ _ => .inl rfl

/-- What is made of the results of two readers does not tell them apart. -/
theorem NarrowsAt.map {t : Token} {strict lenient : Reader α}
    (h : strict.NarrowsAt Departs t lenient) (f : α → β) :
    (f <$> strict).NarrowsAt Departs t (f <$> lenient) := by
  intro stop l ls hl
  have hrun (r : Reader α) : (f <$> r).run stop (l :: ls) =
      goOn (fun a rest => (.ok (f a), rest)) (r.run stop (l :: ls)) := rfl
  rw [hrun, hrun]
  rcases h stop l ls hl with heq | ⟨tail, hdep⟩
  · rw [heq]
    exact .inl rfl
  · refine .inr ⟨tail, hdep.goOn _ fun a rest _ _ => ?_⟩
    exact ⟨List.suffix_rfl, fun e he => by cases he⟩

/-- Readers that go on in the same way narrow if their first parts do. -/
theorem narrows_bind_right {strict lenient : Reader α} {k : α → Reader β} {ls : List Lexeme}
    (h : Narrows Departs stop ls (strict.run stop ls) (lenient.run stop ls))
    (hk : ∀ a, (k a).Blames dialect) :
    Narrows Departs stop ls ((strict >>= k).run stop ls) ((lenient >>= k).run stop ls) := by
  rw [run_bind_eq_goOn, run_bind_eq_goOn]
  rcases h with heq | ⟨tail, hdep⟩
  · rw [heq]
    exact .inl rfl
  · refine .inr ⟨tail, hdep.goOn _ fun a rest _ hrest => ⟨(k a).rest_suffix stop rest, ?_⟩⟩
    exact fun e he => (hk a stop rest e _ (Prod.ext he rfl)).within.mono hrest

/-- Readers that start in the same way narrow if what goes on does. -/
theorem narrows_bind_left (r : Reader α) {f f' : α → Reader β} {ls : List Lexeme}
    (h : ∀ a rest, r.run stop ls = (.ok a, rest) →
      Narrows Departs stop rest ((f a).run stop rest) ((f' a).run stop rest)) :
    Narrows Departs stop ls ((r >>= f).run stop ls) ((r >>= f').run stop ls) := by
  rw [run_bind_eq_goOn, run_bind_eq_goOn]
  cases hrun : r.run stop ls with
  | mk answer rest =>
      cases answer with
      | error e => exact .inl rfl
      | ok a =>
          have hsuffix := suffix_of_run hrun
          exact (h a rest hrun).mono hsuffix

/-! ## Flags -/

variable {dialect dialect' : Dialect}

/-- A lexeme is the same flag in both dialects, or it is a flag of the lenient dialect and the
strict one departs. -/
def FlagsNarrow (F : Type) [WrittenFlag F] (Departs : Reason → Lexeme → Prop)
    (dialect dialect' : Dialect) : Prop :=
  ∀ l, (WrittenFlag.ofLexeme dialect l : Except Reason F) = WrittenFlag.ofLexeme dialect' l ∨
    ∃ reason, ∃ f : F, Departs reason l ∧
      (WrittenFlag.ofLexeme dialect l : Except Reason F) = .error reason ∧
      WrittenFlag.ofLexeme dialect' l = .ok f

section
variable {F : Type} [WrittenFlag F]

/-- Lists of flags narrow if single flags do. -/
theorem narrows_runFlagList
    (hflags : FlagsNarrow F Departs dialect dialect')
    (canFollow : Token → Bool) (ls : List Lexeme) :
    Narrows Departs stop ls (runFlagList (F := F) dialect canFollow stop ls)
      (runFlagList (F := F) dialect' canFollow stop ls) := by
  induction hn : ls.length using Nat.strongRecOn generalizing ls with
  | ind n ih =>
      subst hn
      cases ls with
      | nil =>
          rw [runFlagList, runFlagList]
          exact .inl rfl
      | cons l ls =>
          rw [runFlagList_cons, runFlagList_cons]
          rcases hflags l with heq | ⟨reason, f, hdeparts, hstrict, hlenient⟩
          · rw [heq]
            cases (WrittenFlag.ofLexeme dialect' l : Except Reason F) with
            | error reason => exact .inl rfl
            | ok f =>
                dsimp only
                rw [run_afterFlag, run_afterFlag]
                split
                · exact .inl rfl
                · -- In step so far: the other flags stand in a shorter list.
                  refine Narrows.mono ?_ (List.suffix_cons l ls)
                  refine narrows_bind_left (expect .verticalBar) fun _ rest hrun => ?_
                  have hlength := (suffix_of_run hrun).length_le
                  have hpure (fs : FlagSet F) :
                      (pure ({f} ∪ fs) : Reader (FlagSet F)).Blames dialect' := blames_pure _
                  exact narrows_bind_right (ih rest.length (Nat.lt_succ_of_le hlength) rest rfl)
                    hpure
          · rw [hstrict, hlenient]
            refine .inr ⟨ls, ⟨reason, l, hdeparts, rfl, List.suffix_rfl⟩,
              (afterFlag dialect' canFollow f).rest_suffix stop ls, fun e he => ?_⟩
            exact (blames_afterFlag canFollow f stop ls e _ (Prod.ext he rfl)).within

/-- Two readers of flags differ where one of them refuses a flag only. -/
theorem narrows_flags
    (hflags : FlagsNarrow F Departs dialect dialect')
    (canFollow : Token → Bool) (ls : List Lexeme) :
    Narrows Departs stop ls ((flags dialect canFollow : Reader (FlagSet F)).run stop ls)
      ((flags dialect' canFollow : Reader (FlagSet F)).run stop ls) := by
  rw [run_flags, run_flags]
  split
  · exact .inl rfl
  · exact narrows_runFlagList hflags canFollow ls

end

/-! ## Items -/

/-- A token starts the same kind of item in both dialects, and the strict item narrows the lenient
one. The end starts none. -/
structure ItemsNarrow (Departs : Reason → Lexeme → Prop)
    (strict? lenient? : Token → Option (Item α)) : Prop where
  eof : strict? .eof = none
  start : ∀ t, (strict? t = none ∧ lenient? t = none) ∨
    ∃ strict lenient, strict? t = some strict ∧ lenient? t = some lenient ∧
      strict.slot? = lenient.slot? ∧ strict.read.NarrowsAt Departs t lenient.read

/-- Items narrow if they are read alike, but for those that start with some token. -/
theorem ItemsNarrow.of_eq {strict? lenient? : Token → Option (Item α)} (heof : strict? .eof = none)
    (h : ∀ t, strict? t = lenient? t ∨
      ∃ strict lenient, strict? t = some strict ∧ lenient? t = some lenient ∧
        strict.slot? = lenient.slot? ∧ strict.read.NarrowsAt Departs t lenient.read) :
    ItemsNarrow Departs strict? lenient? := by
  refine ⟨heof, fun t => ?_⟩
  rcases h t with heq | hitem
  · cases hlenient : lenient? t with
    | none => exact .inl ⟨heq.trans hlenient, rfl⟩
    | some item =>
        exact .inr ⟨item, item, heq.trans hlenient, rfl, rfl, .refl t item.read⟩
  · exact .inr hitem

/-- Two outcomes of reading items are the same, or the strict one departs, and then the lenient list
closes behind the departure, if it closes. -/
def ListNarrows (Departs : Reason → Lexeme → Prop) (stop : Location) (ls : List Lexeme)
    (strict lenient : Except ParseError (List α × Lexeme) × List Lexeme) : Prop :=
  strict = lenient ∨ ∃ tail, Departure Departs stop ls strict lenient tail ∧
    ∀ as close rest, lenient = (.ok (as, close), rest) → close ∈ tail

/-- A departure in a list of items is found in a longer list, too. -/
theorem ListNarrows.mono {ls ls' : List Lexeme}
    {strict lenient : Except ParseError (List α × Lexeme) × List Lexeme}
    (h : ListNarrows Departs stop ls strict lenient) (hsuffix : ls <:+ ls') :
    ListNarrows Departs stop ls' strict lenient := by
  rcases h with heq | ⟨tail, hdep, hclose⟩
  · exact .inl heq
  · exact .inr ⟨tail, hdep.mono hsuffix, hclose⟩

variable {strict? lenient? : Token → Option (Item α)}

/-- What comes after an item narrows if the other items do. -/
theorem narrows_afterItem {filled : List Slot} (a : α) {ls : List Lexeme}
    (hrec : ∀ separator rest, ls = separator :: rest → ListNarrows Departs stop rest
      (runItems strict? stop filled rest) (runItems lenient? stop filled rest)) :
    ListNarrows Departs stop ls (afterItem strict? stop filled a ls)
      (afterItem lenient? stop filled a ls) := by
  cases ls with
  | nil => exact .inl rfl
  | cons separator rest =>
      rw [afterItem_cons, afterItem_cons]
      cases separator.token with
      | comma =>
          dsimp only
          rcases hrec separator rest rfl with heq | ⟨tail, hdep, hclose⟩
          · rw [heq]
            exact .inl rfl
          · refine .inr ⟨tail, (hdep.goOn _ fun answer rest _ _ => ?_).mono
              (List.suffix_cons separator rest), fun as close rest h => ?_⟩
            · exact ⟨List.suffix_rfl, fun e he => by cases he⟩
            · obtain ⟨⟨as', close'⟩, rest', hrun, hok⟩ := goOn_eq_ok h
              cases hok
              exact hclose _ _ _ hrun
      | _ => exact .inl rfl

/-- What goes on from an item narrows if the item does, and the other items. -/
theorem narrows_goOn_afterItem (hblame : ItemsBlame dialect lenient?) {filled : List Slot}
    {ls : List Lexeme} {strict lenient : Except ParseError α × List Lexeme}
    (h : Narrows Departs stop ls strict lenient) (hsuffix : lenient.2 <:+ ls)
    (hrec : ∀ separator rest, lenient.2 = separator :: rest → ListNarrows Departs stop rest
      (runItems strict? stop filled rest) (runItems lenient? stop filled rest)) :
    ListNarrows Departs stop ls (goOn (afterItem strict? stop filled) strict)
      (goOn (afterItem lenient? stop filled) lenient) := by
  rcases h with rfl | ⟨tail, hdep⟩
  · -- In step so far.
    obtain ⟨answer, rest⟩ := strict
    cases answer with
    | error e => exact .inl rfl
    | ok a => exact (narrows_afterItem a hrec).mono hsuffix
  · -- Departed: the lenient reading goes on alone.
    refine .inr ⟨tail, hdep.goOn _ fun a rest _ hrest => ?_, fun as close rest hok => ?_⟩
    · obtain ⟨hafter, herror, -⟩ := hblame.afterItem filled a rest
      exact ⟨hafter, fun e he => (herror e he).mono hrest⟩
    · obtain ⟨a, rest', rfl, hok⟩ := goOn_eq_ok hok
      obtain ⟨-, -, hclose⟩ := hblame.afterItem filled a rest'
      exact hdep.rest.mem (hclose as close rest hok)

/-- Two lists of items are read alike, or the strict reading departs. -/
theorem ItemsNarrow.listNarrows (h : ItemsNarrow Departs strict? lenient?)
    (hblame : ItemsBlame dialect lenient?) (filled : List Slot) (ls : List Lexeme) :
    ListNarrows Departs stop ls (runItems strict? stop filled ls)
      (runItems lenient? stop filled ls) := by
  induction hn : ls.length using Nat.strongRecOn generalizing filled ls with
  | ind n ih =>
      subst hn
      rcases h.start (head stop ls).token with
        ⟨hstrict, hlenient⟩ | ⟨strict, lenient, hstrict, hlenient, hslot, hread⟩
      · left
        rw [runItems_eq strict?, runItems_eq lenient?, hstrict, hlenient]
      · cases hfilled : lenient.slot?.filter (· ∈ filled) with
        | some slot =>
            left
            rw [runItems_eq strict?, runItems_eq lenient?, hstrict, hlenient]
            dsimp only
            rw [hslot, hfilled]
        | none =>
            cases ls with
            | nil =>
                rw [head_nil] at hstrict
                cases h.eof.symm.trans hstrict
            | cons l ls =>
                rw [runItems_eq_goOn hstrict (hslot ▸ hfilled), runItems_eq_goOn hlenient hfilled,
                  hslot]
                have hsuffix := lenient.read.rest_suffix stop (l :: ls)
                refine narrows_goOn_afterItem hblame (hread stop l ls rfl) hsuffix
                  fun separator rest hsplit => ?_
                -- What follows the item is shorter than the list.
                rw [hsplit] at hsuffix
                exact ih rest.length hsuffix.length_le _ rest rfl

/-- A construct narrows if its items do. -/
theorem ItemsNarrow.narrowsAt_construct (h : ItemsNarrow Departs strict? lenient?)
    (hblame : ItemsBlame dialect lenient?) (ofItems : List α → Except RequiredParameter β)
    (t : Token) :
    (construct strict? ofItems).NarrowsAt Departs t (construct lenient? ofItems) := by
  intro stop l ls _
  rw [run_construct, run_construct, run_inParens, run_inParens]
  split
  · have hsuffix : ls.tail <:+ l :: ls := (List.tail_suffix ls).trans (List.suffix_cons l ls)
    rcases h.listNarrows hblame [] ls.tail with heq | ⟨tail, hdep, hclose⟩
    · rw [heq]
      exact .inl rfl
    · refine .inr ⟨tail, (hdep.goOn _ fun answer rest hok _ => ?_).mono hsuffix⟩
      obtain ⟨as, close⟩ := answer
      dsimp only [afterItems]
      cases ofItems as with
      | ok b => exact ⟨List.suffix_rfl, fun e he => by cases he⟩
      | error missing =>
          refine ⟨List.suffix_rfl, fun e he => ?_⟩
          cases he
          exact ⟨_, _, List.mem_append_left _ (hclose as close rest hok), rfl⟩
  · exact .inl rfl

end Reader

/-! ## Dialects -/

variable {dialect dialect' : Dialect}

/-- The strict dialect narrows the lenient one in the flags of parameters and in those of the whole
signature. Nothing else that is read depends on the dialect. -/
structure DialectsNarrow (Departs : Reason → Lexeme → Prop) (dialect dialect' : Dialect) :
    Prop where
  parameterFlags : ∀ (F : Type) [WrittenFlag F],
    (parameterFlags dialect : Reader (FlagSet F)).NarrowsAt Departs (.keyword (.parameter .flags))
      (parameterFlags dialect')
  rootFlags : (rootFlags dialect).NarrowsAt Departs (.keyword (.opening .rootFlags))
    (rootFlags dialect')

namespace DialectsNarrow

/-- Two dialects that narrow read the items of a descriptor alike up to a departure. -/
theorem itemsNarrow_descriptor (h : DialectsNarrow Departs dialect dialect')
    (type : DescriptorType) :
    ItemsNarrow Departs (DescriptorItem.ofToken? dialect type)
      (DescriptorItem.ofToken? dialect' type) := by
  refine .of_eq rfl fun t => ?_
  cases t with
  | keyword k =>
      cases k with
      | parameter p =>
          cases p with
          | flags => exact .inr ⟨_, _, rfl, rfl, rfl, (h.parameterFlags DescriptorFlag).map _⟩
          | _ => exact .inl rfl
      | _ => exact .inl rfl
  | register r =>
      obtain ⟨c, n⟩ := r
      cases c <;> exact .inl rfl
  | _ => exact .inl rfl

theorem itemsNarrow_range (h : DialectsNarrow Departs dialect dialect') (type : RangeType) :
    ItemsNarrow Departs (RangeItem.ofToken? dialect type) (RangeItem.ofToken? dialect' type) := by
  refine .of_eq rfl fun t => ?_
  cases t with
  | keyword k =>
      cases k with
      | parameter p =>
          cases p with
          | flags => exact .inr ⟨_, _, rfl, rfl, rfl, (h.parameterFlags RangeFlag).map _⟩
          | _ => exact .inl rfl
      | _ => exact .inl rfl
  | _ => exact .inl rfl

theorem itemsNarrow_table (h : DialectsNarrow Departs dialect dialect') :
    ItemsNarrow Departs (TableItem.ofToken? dialect) (TableItem.ofToken? dialect') := by
  have hrange (type : RangeType) (t : Token) :
      (TableItem.rangeItem dialect type).read.NarrowsAt Departs t
        (TableItem.rangeItem dialect' type).read :=
    ((h.itemsNarrow_range type).narrowsAt_construct (RangeItem.itemsBlame type) _ t).map _
  refine .of_eq rfl fun t => ?_
  fun_cases TableItem.ofToken? dialect t with
  | case1 | case2 | case3 | case4 => exact .inr ⟨_, _, rfl, rfl, rfl, hrange _ _⟩
  | case5 => exact .inl rfl
  | case6 =>
      left
      unfold TableItem.ofToken?
      split <;> simp_all

/-- The strict dialect narrows the lenient one in all declarations. -/
theorem declaration (h : DialectsNarrow Departs dialect dialect') (t : Token) :
    (Declaration.ofToken? dialect t = none ∧ Declaration.ofToken? dialect' t = none) ∨
      ∃ strict lenient, Declaration.ofToken? dialect t = some strict ∧
        Declaration.ofToken? dialect' t = some lenient ∧ strict.NarrowsAt Departs t lenient := by
  have hdescriptor (type : DescriptorType) (t : Token) :
      (Declaration.parameter <$> rootDescriptor dialect type).NarrowsAt Departs t
        (Declaration.parameter <$> rootDescriptor dialect' type) :=
    ((h.itemsNarrow_descriptor type).narrowsAt_construct (DescriptorItem.itemsBlame type) _ t).map _
  fun_cases Declaration.ofToken? dialect t with
  | case1 => exact .inr ⟨_, _, rfl, rfl, h.rootFlags.map _⟩
  | case2 => exact .inr ⟨_, _, rfl, rfl, .refl _ _⟩
  | case3 | case4 | case5 => exact .inr ⟨_, _, rfl, rfl, hdescriptor _ _⟩
  | case6 =>
      exact .inr ⟨_, _, rfl, rfl,
        (h.itemsNarrow_table.narrowsAt_construct TableItem.itemsBlame _ _).map _⟩
  | case7 => exact .inr ⟨_, _, rfl, rfl, .refl _ _⟩
  | case8 =>
      refine .inl ⟨rfl, ?_⟩
      unfold Declaration.ofToken?
      split <;> simp_all

end DialectsNarrow

/-- The strict reading of declarations is the lenient one, or it departs at a lexeme behind which
the lenient one goes on. -/
def ReadingNarrows (Departs : Reason → Lexeme → Prop) (stop : Location) (ls : List Lexeme)
    (strict lenient : Reading) : Prop :=
  strict = lenient ∨ ∃ reason l tail, Departs reason l ∧ l :: tail <:+ ls ∧
    strict.failure? = some (.atLexeme reason l) ∧
    ∀ e, lenient.failure? = some e → e.Within stop tail

/-- A departure in the declarations is found in a longer list, too. -/
theorem ReadingNarrows.mono {ls ls' : List Lexeme} {strict lenient : Reading}
    (h : ReadingNarrows Departs stop ls strict lenient) (hsuffix : ls <:+ ls') :
    ReadingNarrows Departs stop ls' strict lenient := by
  rcases h with heq | ⟨reason, l, tail, hdeparts, hl, hfailure, hwithin⟩
  · exact .inl heq
  · exact .inr ⟨reason, l, tail, hdeparts, hl.trans hsuffix, hfailure, hwithin⟩

/-- What comes after a declaration narrows if the other declarations do. -/
theorem narrows_afterDeclaration {flagsDeclared : Bool} (d : Declaration) {ls : List Lexeme}
    (hrec : ∀ separator rest, ls = separator :: rest → ReadingNarrows Departs stop rest
      (readDeclarations dialect stop flagsDeclared rest)
      (readDeclarations dialect' stop flagsDeclared rest)) :
    ReadingNarrows Departs stop ls (afterDeclaration dialect stop flagsDeclared d ls)
      (afterDeclaration dialect' stop flagsDeclared d ls) := by
  cases ls with
  | nil => exact .inl rfl
  | cons separator rest =>
      dsimp only [afterDeclaration]
      split
      · rcases hrec separator rest rfl with
          heq | ⟨reason, l, tail, hdeparts, hl, hfailure, hwithin⟩
        · rw [heq]
          exact .inl rfl
        · exact .inr ⟨reason, l, tail, hdeparts, hl.trans (List.suffix_cons separator rest),
            hfailure, hwithin⟩
      · exact .inl rfl

/-- What comes of reading a declaration narrows if the declaration does, and those after it. -/
theorem narrows_afterOutcome {flagsDeclared : Bool} {ls : List Lexeme}
    {strict lenient : Except ParseError Declaration × List Lexeme}
    (h : Narrows Departs stop ls strict lenient) (hsuffix : lenient.2 <:+ ls)
    (hrec : ∀ (d : Declaration) separator rest, lenient.2 = separator :: rest →
      ReadingNarrows Departs stop rest
        (readDeclarations dialect stop (flagsDeclared || d.isRootFlags) rest)
        (readDeclarations dialect' stop (flagsDeclared || d.isRootFlags) rest)) :
    ReadingNarrows Departs stop ls (afterOutcome dialect stop flagsDeclared strict)
      (afterOutcome dialect' stop flagsDeclared lenient) := by
  rcases h with rfl | ⟨tail, hdep⟩
  · obtain ⟨answer, rest⟩ := strict
    cases answer with
    | error e => exact .inl rfl
    | ok d => exact (narrows_afterDeclaration d (hrec d)).mono hsuffix
  · obtain ⟨reason, l, hdeparts, hrefused, hl⟩ := hdep.refused
    refine .inr ⟨reason, l, tail, hdeparts, hl, ?_, fun e he => ?_⟩
    · obtain ⟨answer, rest⟩ := strict
      obtain rfl : answer = .error (.atLexeme reason l) := hrefused
      rfl
    · exact within_of_afterOutcome hdep.rest hdep.error he

/-- Declarations are read alike in both dialects up to a departure. -/
theorem narrows_readDeclarations (h : DialectsNarrow Departs dialect dialect')
    (flagsDeclared : Bool) (ls : List Lexeme) :
    ReadingNarrows Departs stop ls (readDeclarations dialect stop flagsDeclared ls)
      (readDeclarations dialect' stop flagsDeclared ls) := by
  induction hn : ls.length using Nat.strongRecOn generalizing flagsDeclared ls with
  | ind n ih =>
      subst hn
      cases ls with
      | nil =>
          left
          rw [readDeclarations, readDeclarations]
      | cons first ls =>
          by_cases hfirst : first.token = .keyword (.opening .rootFlags) ∧ flagsDeclared
          · left
            rw [readDeclarations_cons, readDeclarations_cons, if_pos hfirst, if_pos hfirst]
          · rcases h.declaration first.token with
              ⟨hstrict, hlenient⟩ | ⟨strict, lenient, hstrict, hlenient, hread⟩
            · left
              rw [readDeclarations_cons, readDeclarations_cons, if_neg hfirst, if_neg hfirst,
                hstrict, hlenient]
            · rw [readDeclarations_eq_afterOutcome hfirst hstrict,
                readDeclarations_eq_afterOutcome hfirst hlenient]
              have hsuffix := lenient.rest_suffix stop (first :: ls)
              refine narrows_afterOutcome (hread stop first ls rfl) hsuffix
                fun d separator rest hsplit => ?_
              -- What follows the declaration is shorter than the list.
              rw [hsplit] at hsuffix
              exact ih rest.length hsuffix.length_le _ rest rfl

end RootSignature
