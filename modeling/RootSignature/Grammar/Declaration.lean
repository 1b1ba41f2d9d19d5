import RootSignature.Grammar.RootParameter
import RootSignature.Grammar.StaticSampler

/-!
# Declarations

A root signature is written as a list of declarations with commas between them and perhaps one at
the end. `readDeclarations` reads such a list. What has been declared before an error is part of
the answer, and so are the lexemes that are left, from where reading can go on.
-/

namespace RootSignature

/-- A declaration. -/
inductive Declaration where
  /-- The flags of the whole signature. -/
  | rootFlags (flags : FlagSet RootFlag)
  /-- A parameter. -/
  | parameter (parameter : RootParameterV1_1)
  /-- A sampler. -/
  | staticSampler (sampler : StaticSampler)
deriving DecidableEq

namespace Declaration

/-- How the declaration is read that starts with a token. -/
def ofToken? (dialect : Dialect) : Token → Option (Reader Declaration)
  | .keyword (.opening .rootFlags) => some (rootFlags <$> Reader.rootFlags dialect)
  | .keyword (.opening .rootConstants) => some (parameter <$> Reader.rootConstants)
  | .keyword (.opening .cbv) => some (parameter <$> Reader.rootDescriptor dialect .cbv)
  | .keyword (.opening .srv) => some (parameter <$> Reader.rootDescriptor dialect .srv)
  | .keyword (.opening .uav) => some (parameter <$> Reader.rootDescriptor dialect .uav)
  | .keyword (.opening .descriptorTable) => some (parameter <$> Reader.descriptorTable dialect)
  | .keyword (.opening .staticSampler) => some (staticSampler <$> Reader.staticSampler)
  | _ => none

/-- The declaration gives the flags of the whole signature. -/
def isRootFlags : Declaration → Bool
  | rootFlags _ => true
  | _ => false

/-- The name of what is declared. -/
def kindText : Declaration → String
  | rootFlags _ => "root flags"
  | parameter ⟨.constants _, _⟩ => "root constants"
  | parameter ⟨.descriptor _, _⟩ => "root descriptor"
  | parameter ⟨.table _, _⟩ => "descriptor table"
  | staticSampler _ => "static sampler"

end Declaration

/-- The signature that a list of declarations makes. -/
def Signature.ofDeclarations (ds : List Declaration) : SignatureV1_1 :=
  let flags? := ds.findSome? fun
    | .rootFlags fs => some fs
    | _ => none
  { flags := flags?.getD ∅
    parameters := ds.filterMap fun
      | .parameter p => some p
      | _ => none
    staticSamplers := ds.filterMap fun
      | .staticSampler s => some s
      | _ => none }

/-! ## Reading declarations -/

/-- What has come of reading a list of declarations. -/
structure Reading where
  /-- The declarations that have been read completely. -/
  declarations : List Declaration
  /-- Why reading has stopped before the end, if it has. -/
  failure? : Option ParseError
  /-- The lexemes that are left. -/
  rest : List Lexeme

/-- The signature that has been read, or the reason why there is none. -/
def Reading.signature (r : Reading) : Except ParseError SignatureV1_1 :=
  match r.failure? with
  | some e => .error e
  | none => .ok (.ofDeclarations r.declarations)

/-- Reads declarations up to the end of the text. The flags of the whole signature may have been
declared before. -/
def readDeclarations (dialect : Dialect) (stop : Location) (flagsDeclared : Bool) :
    List Lexeme → Reading
  | [] => ⟨[], none, []⟩
  | head :: ls =>
    if head.token = .keyword (.opening .rootFlags) ∧ flagsDeclared then
      ⟨[], some (.atLexeme .rootFlagsRedefined head), head :: ls⟩
    else
      match Declaration.ofToken? dialect head.token with
      | none => ⟨[], some (.atLexeme (.unexpectedDeclaration head.text) head), head :: ls⟩
      | some reader =>
        match _ : reader.run stop (head :: ls) with
        | (.error e, rest) => ⟨[], some e, rest⟩
        | (.ok d, []) => ⟨[d], none, []⟩
        | (.ok d, separator :: rest) =>
          if separator.token = .comma then
            let reading := readDeclarations dialect stop (flagsDeclared || d.isRootFlags) rest
            { reading with declarations := d :: reading.declarations }
          else ⟨[d], some (.atLexeme (.expectedComma separator.text) separator), rest⟩
termination_by ls => ls.length
decreasing_by
  have hle := reader.length_rest_le stop (head :: ls)
  rw [‹reader.run stop (head :: ls) = _›] at hle
  simp only [List.length_cons] at hle ⊢
  omega

namespace TokenStream

/-- Reads declarations from a stream up to its end. -/
def readDeclarations (dialect : Dialect) (s : TokenStream) : Reading :=
  RootSignature.readDeclarations dialect s.stop false s.lexemes

/-- Reads a signature from a stream. The stream that is left goes on where reading has stopped. -/
def readSignature (dialect : Dialect) (s : TokenStream) :
    Except ParseError SignatureV1_1 × TokenStream :=
  let reading := s.readDeclarations dialect
  (reading.signature, { s with lexemes := reading.rest })

end TokenStream

end RootSignature
