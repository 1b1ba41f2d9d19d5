import RootSignature.Proofs.Error.Priority

/-!
# The reasons of readers

Each reader refuses texts for some kinds of reasons only (`Reader.RefusesFor`). Readers of values
refuse tokens, numbers and flags (`Reason.OfValue`), and declarations moreover refuse registers and
whole lists of items (`Reason.OfDeclaration`). What is wrong with a list of declarations itself,
such as a missing comma, is the reason of no declaration.
-/

namespace RootSignature

open Reader

/-! ## Kinds of reasons -/

/-- A value is refused for what it is: a token, a number or a flag. -/
def Reason.OfValue : Reason → Prop
  | unexpectedToken _ | expectedFloat _ | unexpectedValue _ _ | invalidFlagNumber _ _
  | expectedFlag _ _ | flagsNotSupported _ _ | localFlagInGlobalSignature => True
  | _ => False

/-- A declaration is refused for a value in it, for a register, or for its items together. -/
def Reason.OfDeclaration : Reason → Prop
  | expectedRegister _ | incorrectRegisterClass _ _ | duplicateParameter _
  | missingParameter _ => True
  | reason => reason.OfValue

/-- What a value is refused for, a declaration is refused for. -/
theorem Reason.OfValue.ofDeclaration {reason : Reason} (h : reason.OfValue) :
    reason.OfDeclaration := by
  cases reason <;> first | exact h | exact trivial

/-! ## Readers -/

namespace Reader

variable {α β : Type} {Q : Reason → Prop} {dialect : Dialect}

/-- The reader refuses texts for reasons of a kind only. -/
def RefusesFor (Q : Reason → Prop) (r : Reader α) : Prop :=
  ∀ stop ls e, r.Fails stop ls e → Q e.reason

/-- A reader that refuses for some reasons refuses for any wider choice of reasons. -/
theorem RefusesFor.mono {Q' : Reason → Prop} {r : Reader α} (h : r.RefusesFor Q)
    (hQ : ∀ reason, Q reason → Q' reason) : r.RefusesFor Q' :=
  fun stop ls e hfails => hQ _ (h stop ls e hfails)

/-- Readers one after the other refuse for the reasons that both may have. -/
theorem RefusesFor.bind {r : Reader α} {f : α → Reader β} (hr : r.RefusesFor Q)
    (hf : ∀ a, (f a).RefusesFor Q) : (r >>= f).RefusesFor Q := by
  rintro stop ls e ⟨rest, h⟩
  rcases run_bind_eq_error_iff.1 h with hfirst | ⟨a, rest', -, hsecond⟩
  · exact hr stop ls e ⟨rest, hfirst⟩
  · exact hf a stop rest' e ⟨rest, hsecond⟩

/-- What is made of a result adds no reason. -/
theorem RefusesFor.map {r : Reader α} (hr : r.RefusesFor Q) (f : α → β) :
    (f <$> r).RefusesFor Q := by
  rintro stop ls e ⟨rest, h⟩
  exact hr stop ls e ⟨rest, run_map_eq_error_iff.1 h⟩

/-- A keyword in place of a value adds no reason. -/
theorem RefusesFor.orKeyword {r : Reader α} (hr : r.RefusesFor Q) (k : Keyword) (instead : α) :
    (Reader.orKeyword k instead r).RefusesFor Q := by
  rintro stop ls e ⟨rest, h⟩
  rw [Reader.orKeyword, run_bind, run_peek] at h
  dsimp only at h
  split at h
  · cases h
  · exact hr stop ls e ⟨rest, h⟩

theorem refusesFor_pure (a : α) : (pure a : Reader α).RefusesFor Q := by
  rintro stop ls e ⟨rest, h⟩
  cases h

theorem refusesFor_next : next.RefusesFor Q := by
  rintro stop ls e ⟨rest, h⟩
  cases h

/-- A reader that always fails has its own reason only. -/
theorem refusesFor_fail {reason : Reason} (h : Q reason) (l : Lexeme) :
    (fail reason l : Reader α).RefusesFor Q := by
  rintro stop ls e ⟨rest, hrun⟩
  cases hrun
  exact h

/-- A reader of one lexeme has the reasons of its function. -/
theorem refusesFor_take {f : Lexeme → Except Reason α}
    (hf : ∀ l reason, f l = .error reason → Q reason) : (take f).RefusesFor Q := by
  rintro stop ls e ⟨rest, h⟩
  rw [run_take] at h
  cases hl : f (head stop ls) with
  | ok a => simp [hl] at h
  | error reason =>
      obtain ⟨rfl, -⟩ : .atLexeme reason (head stop ls) = e ∧ ls.tail = rest := by
        simpa [hl] using h
      exact hf _ reason hl

/-! ## Values -/

/-- An expected token is refused as a value is. -/
theorem refusesFor_expect (t : Token) : (expect t).RefusesFor Reason.OfValue := by
  rw [expect_eq_take]
  refine refusesFor_take fun l reason h => ?_
  split at h <;> cases h
  trivial

theorem refusesFor_uint : uint.RefusesFor Reason.OfValue := by
  rw [uint_eq_take]
  refine refusesFor_take fun l reason h => ?_
  split at h <;> cases h
  trivial

theorem refusesFor_float : float.RefusesFor Reason.OfValue := by
  rw [float_eq_take]
  refine refusesFor_take fun l reason h => ?_
  split at h <;> cases h
  trivial

theorem refusesFor_choice (kind : ValueKind) (value? : Keyword → Option α) :
    (choice kind value?).RefusesFor Reason.OfValue := by
  rw [choice_eq_take]
  refine refusesFor_take fun l reason h => ?_
  split at h <;> cases h
  trivial

/-- A value behind an equals sign adds the reasons of the sign. -/
theorem RefusesFor.assigned {value : Reader α} (hvalue : value.RefusesFor Q)
    (hQ : ∀ reason : Reason, reason.OfValue → Q reason) : (assigned value).RefusesFor Q :=
  refusesFor_next.bind fun _ => ((refusesFor_expect _).mono hQ).bind fun _ => hvalue

section
variable {F : Type} [WrittenFlag F]

/-- A list of flags is refused as a value is. -/
theorem refusesFor_flagList (canFollow : Token → Bool) :
    (flagList dialect canFollow : Reader (FlagSet F)).RefusesFor Reason.OfValue := by
  rintro stop ls e ⟨rest, h⟩
  change runFlagList (F := F) dialect canFollow stop ls = (.error e, rest) at h
  fun_induction runFlagList (F := F) dialect canFollow stop ls with
  | case1 | case4 | case6 =>
      cases h
      trivial
  | case2 l ls reason hl =>
      cases h
      unfold WrittenFlag.ofLexeme at hl
      dsimp only at hl
      split at hl
      · cases hl
        trivial
      · split at hl <;> cases hl
        trivial
  | case3 => cases h
  | case5 l f hl bar ls hbar answer rest' hrun _ ih =>
      obtain ⟨hanswer, rfl⟩ : answer.map ({f} ∪ ·) = .error e ∧ rest' = rest := by simpa using h
      cases answer with
      | error e' =>
          cases hanswer
          exact ih hrun
      | ok fs => cases hanswer

theorem refusesFor_flags (canFollow : Token → Bool) :
    (flags dialect canFollow : Reader (FlagSet F)).RefusesFor Reason.OfValue := by
  rintro stop ls e ⟨rest, h⟩
  rw [run_flags] at h
  split at h
  · split at h <;> cases h
    trivial
  · exact refusesFor_flagList canFollow stop ls e ⟨rest, h⟩

theorem refusesFor_parameterFlags :
    (parameterFlags dialect : Reader (FlagSet F)).RefusesFor Reason.OfValue := by
  unfold parameterFlags
  cases dialect.version with
  | v1_0 =>
      rintro stop ls e ⟨rest, h⟩
      cases h
      trivial
  | v1_1 => exact (refusesFor_flags canFollowParameter).assigned fun _ h => h

end

theorem refusesFor_rootFlags : (rootFlags dialect).RefusesFor Reason.OfValue :=
  refusesFor_next.bind fun _ => (refusesFor_expect _).bind fun _ => (refusesFor_flags _).bind
    fun fs => (refusesFor_expect _).bind fun _ => refusesFor_pure fs

/-! ## Declarations -/

/-- A register can be refused for its class, too. -/
theorem refusesFor_register (c : RegisterClass) :
    (register c).RefusesFor Reason.OfDeclaration := by
  rw [register_eq_take]
  refine refusesFor_take fun l reason h => ?_
  split at h
  · split at h <;> cases h
    trivial
  · cases h
    trivial

/-- A list of items is refused for its items, for a duplicate or for its separators. -/
theorem refusesFor_itemList {item? : Token → Option (Item α)}
    (h : ∀ t item, item? t = some item → item.read.RefusesFor Reason.OfDeclaration) :
    (itemList item?).RefusesFor Reason.OfDeclaration := by
  rintro stop ls e ⟨rest, hrun⟩
  change runItems item? stop [] ls = (.error e, rest) at hrun
  generalize ([] : List Slot) = filled at hrun
  fun_induction runItems item? stop filled ls with
  | case1 | case2 | case4 | case7 =>
      cases hrun
      trivial
  | case3 filled ls head item hitem _ e' rest' hread =>
      cases hrun
      exact h _ item hitem stop ls e ⟨rest, hread⟩
  | case5 => cases hrun
  | case6 filled ls head item _ _ a separator rest' _ _ answer rest'' hrec ih =>
      obtain ⟨hanswer, rfl⟩ := Prod.mk.inj hrun
      cases answer with
      | ok answer => cases hanswer
      | error e' =>
          cases hanswer
          exact ih hrec

/-- A construct is refused for its items or for a missing parameter. -/
theorem refusesFor_construct {item? : Token → Option (Item α)}
    (ofItems : List α → Except RequiredParameter β)
    (h : ∀ t item, item? t = some item → item.read.RefusesFor Reason.OfDeclaration) :
    (construct item? ofItems).RefusesFor Reason.OfDeclaration := by
  refine refusesFor_next.bind fun _ =>
    ((refusesFor_expect _).mono fun _ => Reason.OfValue.ofDeclaration).bind fun _ =>
      (refusesFor_itemList h).bind fun (as, close) => ?_
  dsimp only
  cases ofItems as with
  | ok b => exact refusesFor_pure b
  | error missing => exact refusesFor_fail trivial close

/-- All readers of declarations refuse for the reasons of declarations only. -/
theorem refusesFor_compositional :
    Compositional dialect (fun _ r => r.RefusesFor Reason.OfValue)
      (fun _ _ r => r.RefusesFor Reason.OfDeclaration) where
  uint := refusesFor_uint
  float := refusesFor_float
  choice := refusesFor_choice
  orKeyword k instead h := h.orKeyword k instead
  mapValue f h := h.map f
  register c _ := refusesFor_register c
  assigned _ h := (h.mono fun _ => Reason.OfValue.ofDeclaration).assigned fun _ =>
    Reason.OfValue.ofDeclaration
  parameterFlags _ := refusesFor_parameterFlags.mono fun _ => Reason.OfValue.ofDeclaration
  rootFlags _ := refusesFor_rootFlags.mono fun _ => Reason.OfValue.ofDeclaration
  construct ofItems _ _ h := refusesFor_construct ofItems h
  map f h := h.map f

end Reader

/-- Declarations are refused for what is in them. -/
theorem Declaration.refusesFor {dialect : Dialect} {t : Token} {reader : Reader Declaration}
    (h : ofToken? dialect t = some reader) : reader.RefusesFor Reason.OfDeclaration :=
  refusesFor_compositional.declaration h

end RootSignature
