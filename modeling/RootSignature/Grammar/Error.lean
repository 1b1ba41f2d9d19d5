import RootSignature.Signature.Conversion
import RootSignature.Token.Lexeme

/-!
# Parse errors

A text that is no root signature is refused for one reason, at one lexeme. The reasons are causes;
their wording is in `Reason.message`.
-/

namespace RootSignature

/-- What a list of flags belongs to. -/
inductive FlagFamily where
  | rootSignature
  | rootDescriptor
  | descriptorRange
deriving DecidableEq

namespace FlagFamily

/-- The name of a family inside a sentence. -/
def text : FlagFamily → String
  | rootSignature => "root signature"
  | rootDescriptor => "root descriptor"
  | descriptorRange => "descriptor range"

/-- The name of a family at the start of a sentence. -/
def capitalText : FlagFamily → String
  | rootSignature => "Root signature"
  | rootDescriptor => "Root descriptor"
  | descriptorRange => "Descriptor range"

end FlagFamily

/-- The enumerations that parameters take values from. -/
inductive ValueKind where
  | visibility
  | filter
  | textureAddressMode
  | comparisonFunction
  | borderColor
deriving DecidableEq

/-- The name of an enumeration. -/
def ValueKind.text : ValueKind → String
  | visibility => "visibility"
  | filter => "filter"
  | textureAddressMode => "texture address mode"
  | comparisonFunction => "comparison function"
  | borderColor => "border color"

/-- What a declaration can not do without. -/
inductive RequiredParameter where
  | num32BitConstants
  | constantBufferRegister
  | shaderRegister
  | samplerRegister
deriving DecidableEq

/-- The sentence that asks for a parameter. -/
def RequiredParameter.demand : RequiredParameter → String
  | num32BitConstants => "num32BitConstants must be defined for each RootConstants"
  | constantBufferRegister => "Constant buffer register b# must be defined for each RootConstants"
  | shaderRegister => "shader register must be defined for each CBV/SRV/UAV"
  | samplerRegister => "Sampler register s# must be defined for each static sampler"

/-- What registers of a class are for. -/
def RegisterClass.declarations : RegisterClass → String
  | b => "CBV"
  | t => "SRV"
  | u => "UAV"
  | s => "Sampler/StaticSampler"

/-- Why a text is refused. -/
inductive Reason where
  /-- The token can not stand here. -/
  | unexpectedToken (found : String)
  /-- The token starts no declaration. -/
  | unexpectedDeclaration (found : String)
  /-- A declaration is followed neither by a comma nor by the end. -/
  | expectedComma (found : String)
  /-- The flags of the whole signature are declared again. -/
  | rootFlagsRedefined
  /-- A parameter is given again. -/
  | duplicateParameter (name : String)
  /-- A declaration is closed without a parameter that it needs. -/
  | missingParameter (parameter : RequiredParameter)
  /-- A number other than zero stands for flags. -/
  | invalidFlagNumber (family : FlagFamily) (found : String)
  /-- The token is no flag of the family. -/
  | expectedFlag (family : FlagFamily) (found : String)
  /-- The version has no flags of the family. -/
  | flagsNotSupported (family : FlagFamily) (version : Version)
  /-- A global root signature calls itself local. -/
  | localFlagInGlobalSignature
  /-- The token is no register. -/
  | expectedRegister (found : String)
  /-- The register is of another class than the declaration needs. -/
  | incorrectRegisterClass (found : String) (expected : RegisterClass)
  /-- The token is no number. -/
  | expectedFloat (found : String)
  /-- The token is no value of the enumeration. -/
  | unexpectedValue (kind : ValueKind) (found : String)
  /-- The signature can not be described in the version that was asked for. -/
  | conversionFailed (error : ConversionError)
  /-- The text is handed on without having been read. -/
  | unparsed (text : String)
deriving DecidableEq

/-- The text of a reason. -/
def Reason.message : Reason → String
  | unexpectedToken found => s!"Unexpected token '{found}'"
  | unexpectedDeclaration found => s!"Unexpected token '{found}' when parsing root signature"
  | expectedComma found => s!"Expected ',', found: '{found}'"
  | rootFlagsRedefined => "RootFlags cannot be specified more than once"
  | duplicateParameter name => s!"Parameter '{name}' can be specified only once"
  | missingParameter parameter => parameter.demand
  | invalidFlagNumber family found =>
    s!"{family.capitalText} flag values can only be 0 or flag enum values, found: '{found}'"
  | expectedFlag family found => s!"Expected a {family.text} flag value, found: '{found}'"
  | flagsNotSupported family version =>
    s!"{family.capitalText} flags cannot be specified for {version}"
  | localFlagInGlobalSignature => "LOCAL_ROOT_SIGNATURE flag used in global root signature"
  | expectedRegister found =>
    s!"Expected a register token (CBV, SRV, UAV, Sampler), found: '{found}'"
  | incorrectRegisterClass found expected =>
    s!"Incorrect register type '{found}' in {expected.declarations} " ++
      s!"(expected {expected.letter}#)"
  | expectedFloat found => s!"Expected float, found token '{found}'"
  | unexpectedValue kind found => s!"Unexpected {kind.text} value: '{found}'."
  | conversionFailed error => error.message
  | unparsed text => text

/-- A reason with the place that it is about. -/
structure ParseError where
  /-- Why the text is refused. -/
  reason : Reason
  /-- The location of the first byte that the reason is about. -/
  location : Location
  /-- The number of bytes that the reason is about. -/
  width : Nat
deriving DecidableEq

namespace ParseError

/-- A reason that is about a lexeme. -/
def atLexeme (reason : Reason) (l : Lexeme) : ParseError :=
  ⟨reason, l.location, l.width⟩

/-- The report of a text that is handed on without having been read. -/
def ofUnparsed (text : String) (location : Location) : ParseError :=
  ⟨.unparsed text, location, text.utf8ByteSize⟩

end ParseError

end RootSignature
