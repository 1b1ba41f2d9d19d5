import RootSignature.Grammar.Value

/-!
# Lists of flags

Flags are written as a zero or as a list of words with bars between them. After each flag either the
list ends, because a token follows that can stand after it, or a bar has to follow and another flag.
-/

namespace RootSignature

/-- What is read besides the text decides what may be written. -/
structure Dialect where
  /-- The version that the signature will be described in. -/
  version : Version
  /-- The signature is global, so it may not call itself local. -/
  isGlobal : Bool

/-- Flags that can be written in a root signature. -/
class WrittenFlag (F : Type) extends Flag F where
  /-- The family of the flags. -/
  family : FlagFamily
  /-- The flag that a keyword stands for in the family. -/
  ofKeyword? : Keyword → Option F

instance : WrittenFlag RootFlag where
  family := .rootSignature
  ofKeyword?
    | .rootFlag f => some f
    | _ => none

instance : WrittenFlag DescriptorFlag where
  family := .rootDescriptor
  ofKeyword?
    | .rangeFlag f => f.toDescriptorFlag?
    | _ => none

instance : WrittenFlag RangeFlag where
  family := .descriptorRange
  ofKeyword?
    | .rangeFlag f => some f
    | _ => none

/-- The flag of a family that a lexeme stands for, or the reason to refuse it. -/
def WrittenFlag.ofLexeme {F : Type} [WrittenFlag F] (dialect : Dialect) (l : Lexeme) :
    Except Reason F :=
  let found? : Option F := match l.token with
    | .keyword k => ofKeyword? k
    | _ => none
  match found? with
  | none => .error (.expectedFlag (family F) l.text)
  | some f =>
    if l.token = .keyword (.rootFlag .localRootSignature) ∧ dialect.isGlobal then
      .error .localFlagInGlobalSignature
    else .ok f

namespace Reader

variable {F : Type} [WrittenFlag F]

/-- Reads flags with bars between them, up to a token that can stand after the list. -/
def runFlagList (dialect : Dialect) (canFollow : Token → Bool) (stop : Location) :
    List Lexeme → Except ParseError (FlagSet F) × List Lexeme
  | [] => (.error (.atLexeme (.expectedFlag (WrittenFlag.family F) "") (.endAt stop)), [])
  | l :: ls =>
    match WrittenFlag.ofLexeme dialect l with
    | .error reason => (.error (.atLexeme reason l), ls)
    | .ok f =>
      if canFollow (ls.headD (.endAt stop)).token then (.ok {f}, ls)
      else
        match ls with
        | [] => (.error (.atLexeme (.unexpectedToken "") (.endAt stop)), [])
        | bar :: ls' =>
          if bar.token = .verticalBar then
            let (answer, rest) := runFlagList dialect canFollow stop ls'
            (answer.map ({f} ∪ ·), rest)
          else (.error (.atLexeme (.unexpectedToken bar.text) bar), ls')

theorem runFlagList_suffix (dialect : Dialect) (canFollow : Token → Bool) (stop : Location)
    (ls : List Lexeme) :
    (runFlagList dialect canFollow stop ls : Except ParseError (FlagSet F) × _).2 <:+ ls := by
  fun_induction runFlagList (F := F) dialect canFollow stop ls with
  | case1 => exact List.suffix_rfl
  | case2 => exact List.suffix_cons _ _
  | case3 => exact List.suffix_cons _ _
  | case4 => exact List.nil_suffix
  | case5 l f _ bar ls' _ answer rest h _ ih =>
    rw [h] at ih
    exact ih.trans ((List.suffix_cons _ _).trans (List.suffix_cons _ _))
  | case6 => exact (List.suffix_cons _ _).trans (List.suffix_cons _ _)

/-- Flags with bars between them, up to a token that can stand after the list. -/
def flagList (dialect : Dialect) (canFollow : Token → Bool) : Reader (FlagSet F) where
  run := runFlagList dialect canFollow
  rest_suffix := runFlagList_suffix dialect canFollow

/-- A zero for no flags, or a list of flags. -/
def flags (dialect : Dialect) (canFollow : Token → Bool) : Reader (FlagSet F) := do
  let l ← peek
  match l.token with
  | .uint n =>
    let _ ← next
    if n = 0 then pure ∅ else fail (.invalidFlagNumber (WrittenFlag.family F) l.text) l
  | _ => flagList dialect canFollow

/-- A token that can stand after the flags of a parameter: one that ends the parameter, or the
end of the text. -/
def canFollowParameter : Token → Bool
  | .rightParen | .comma | .eof => true
  | _ => false

/-- The flags of a descriptor or of a range, from the name of the parameter on. Version 1.0 does
not have them. -/
def parameterFlags (dialect : Dialect) : Reader (FlagSet F) := do
  match dialect.version with
  | .v1_0 =>
    let l ← peek
    fail (.flagsNotSupported (WrittenFlag.family F) .v1_0) l
  | .v1_1 => assigned (flags dialect canFollowParameter)

/-- The flags of a whole signature, from the opening word on. -/
def rootFlags (dialect : Dialect) : Reader (FlagSet RootFlag) := do
  let _ ← next
  let _ ← expect .leftParen
  let fs ← flags dialect (· = .rightParen)
  let _ ← expect .rightParen
  pure fs

end Reader

end RootSignature
