import RootSignature.Grammar.Reader

/-!
# Values

The values of parameters: numbers, registers and the words of an enumeration. Every reader here
takes the lexeme that it looks at, also when it refuses it.
-/

namespace RootSignature.Reader

variable {α : Type}

/-- An equals sign and the value after it. The name of the parameter, which stands before the
equals sign, has been seen and is taken along. -/
def assigned (value : Reader α) : Reader α := do
  let _ ← next
  let _ ← expect .equals
  value

/-- A whole number without a minus sign. -/
def uint : Reader UInt32 := do
  let l ← next
  match l.token with
  | .uint n => pure n
  | _ => unexpected l

/-- Any number. Whole numbers are rounded to a float. -/
def float : Reader Binary32 := do
  let l ← next
  match l.token with
  | .uint n => pure (.ofInt n.toNat)
  | .int n => pure (.ofInt n.toInt)
  | .float x => pure x
  | _ => fail (.expectedFloat l.text) l

/-- A word of an enumeration. -/
def choice (kind : ValueKind) (value? : Keyword → Option α) : Reader α := do
  let l ← next
  let found? : Option α := match l.token with
    | .keyword k => value? k
    | _ => none
  match found? with
  | some a => pure a
  | none => fail (.unexpectedValue kind l.text) l

/-- A value for which one keyword can stand instead. -/
def orKeyword (k : Keyword) (instead : α) (value : Reader α) : Reader α := do
  let l ← peek
  if l.token = .keyword k then
    let _ ← next
    pure instead
  else value

/-- The number of a register of a class. -/
def register (expected : RegisterClass) : Reader UInt32 := do
  let l ← next
  match l.token with
  | .register r =>
    if r.registerClass = expected then pure r.index
    else fail (.incorrectRegisterClass l.text expected) l
  | _ => fail (.expectedRegister l.text) l

/-- A visibility. -/
def visibility : Reader ShaderVisibility :=
  choice .visibility fun
    | .visibility v => some v
    | _ => none

/-- A filter. -/
def filter : Reader Filter :=
  choice .filter fun
    | .filter f => some f
    | _ => none

/-- A texture address mode. -/
def addressMode : Reader TextureAddressMode :=
  choice .textureAddressMode fun
    | .addressMode m => some m
    | _ => none

/-- A comparison. -/
def comparison : Reader ComparisonFunction :=
  choice .comparisonFunction fun
    | .comparison c => some c
    | _ => none

/-- A border colour. -/
def borderColor : Reader BorderColor :=
  choice .borderColor fun
    | .borderColor b => some b
    | _ => none

/-- The number of descriptors in a range. -/
def descriptorCount : Reader DescriptorCount :=
  orKeyword .unbounded .unbounded (.bounded <$> uint)

/-- The place of a range in its table. -/
def rangeOffset : Reader RangeOffset :=
  orKeyword .offsetAppend .append (.explicit <$> uint)

end RootSignature.Reader
