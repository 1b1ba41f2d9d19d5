import RootSignature.Grammar.Value

/-!
# Lists of items in parentheses

Every declaration, and every range in a table, consists of an opening word and a list of items in
parentheses. The items stand in any order, with a comma between any two and at least one of them.
The token that an item starts with tells what kind of item it is. Most kinds fill a slot and can be
given once only; `Item.slot?` is empty for the others.
-/

namespace RootSignature

/-- What an item that can be given once only is about. -/
inductive Slot where
  /-- The constant buffer register of root constants. -/
  | constantBufferRegister
  /-- The register of a descriptor or of a range, whatever its class. -/
  | shaderRegister
  /-- The register of a static sampler. -/
  | samplerRegister
  /-- A parameter that is given by its name. -/
  | parameter (p : Parameter)
deriving DecidableEq

/-- The name of a slot in messages. -/
def Slot.label : Slot → String
  | constantBufferRegister => "cbuffer register b#"
  | shaderRegister => "shader register"
  | samplerRegister => "sampler register s#"
  | parameter p => p.label

/-- How an item is read. -/
structure Item (α : Type) where
  /-- The slot that the item fills, if it can be given once only. -/
  slot? : Option Slot
  /-- The reader of the item, from its first token on. -/
  read : Reader α

/-- The item that gives a parameter by its name. -/
def Item.named {α : Type} (p : Parameter) (value : Reader α) : Item α :=
  ⟨some (.parameter p), .assigned value⟩

namespace Reader

variable {α : Type}

/-- Reads items up to the closing parenthesis, of which some slots have been filled before. -/
def runItems (item? : Token → Option (Item α)) (stop : Location) (filled : List Slot)
    (ls : List Lexeme) : Except ParseError (List α × Lexeme) × List Lexeme :=
  let head := ls.headD (.endAt stop)
  match item? head.token with
  | none => (.error (.atLexeme (.unexpectedToken head.text) head), ls)
  | some item =>
    match item.slot?.filter (· ∈ filled) with
    | some slot => (.error (.atLexeme (.duplicateParameter slot.label) head), ls)
    | none =>
      match _ : item.read.run stop ls with
      | (.error e, rest) => (.error e, rest)
      | (.ok _, []) => (.error (.atLexeme (.unexpectedToken "") (.endAt stop)), [])
      | (.ok a, separator :: rest) =>
        match separator.token with
        | .rightParen => (.ok ([a], separator), rest)
        | .comma =>
          let (answer, rest') := runItems item? stop (item.slot?.toList ++ filled) rest
          (answer.map fun (as, close) => (a :: as, close), rest')
        | _ => (.error (.atLexeme (.unexpectedToken separator.text) separator), rest)
termination_by ls.length
decreasing_by
  have hle := item.read.length_rest_le stop ls
  rw [‹item.read.run stop ls = _›] at hle
  simp only [List.length_cons] at hle
  omega

theorem runItems_suffix (item? : Token → Option (Item α)) (stop : Location) (filled : List Slot)
    (ls : List Lexeme) : (runItems item? stop filled ls).2 <:+ ls := by
  fun_induction runItems item? stop filled ls with
  | case1 | case2 => exact List.suffix_rfl
  | case3 filled ls head item _ _ e rest h =>
    have hr := item.read.rest_suffix stop ls
    rwa [h] at hr
  | case4 => exact List.nil_suffix
  | case5 filled ls head item _ _ a separator rest h =>
    have hr := item.read.rest_suffix stop ls
    rw [h] at hr
    exact (List.suffix_cons _ _).trans hr
  | case6 filled ls head item _ _ a separator rest h _ answer rest' hrun ih =>
    have hr := item.read.rest_suffix stop ls
    rw [h] at hr
    rw [hrun] at ih
    exact ih.trans ((List.suffix_cons _ _).trans hr)
  | case7 filled ls head item _ _ a separator rest h =>
    have hr := item.read.rest_suffix stop ls
    rw [h] at hr
    exact (List.suffix_cons _ _).trans hr

/-- The items of a list and its closing parenthesis. -/
def itemList (item? : Token → Option (Item α)) : Reader (List α × Lexeme) where
  run stop := runItems item? stop []
  rest_suffix stop := runItems_suffix item? stop []

/-- What is made of a list of items in parentheses, from the opening word on. A missing parameter is
noticed at the closing parenthesis. -/
def construct {β : Type} (item? : Token → Option (Item α))
    (ofItems : List α → Except RequiredParameter β) : Reader β := do
  let _ ← next
  let _ ← expect .leftParen
  let (as, close) ← itemList item?
  match ofItems as with
  | .ok b => pure b
  | .error missing => fail (.missingParameter missing) close

end Reader

/-- The value of a parameter that is needed. -/
def RequiredParameter.require {α : Type} (p : RequiredParameter) :
    Option α → Except RequiredParameter α
  | some a => .ok a
  | none => .error p

end RootSignature
