import RootSignature.Grammar.Declaration

/-!
# Reading root signatures

`parse` reads a whole source as a root signature and describes it in the version that is asked for.
Signatures are always read as version 1.1; version 1.0 accepts less, and what it accepts is
converted at the end.
-/

namespace RootSignature

/-- What a mode means for the reading of a text. -/
def BindingMode.dialect (mode : BindingMode) (version : Version) : Dialect where
  version := version
  isGlobal := mode = .globalMode

/-- The declarations of a source whose first byte is at a location. -/
def readSource (source : String) (base : Location) (version : Version) (mode : BindingMode) :
    Reading :=
  (TokenStream.ofSource source base).readDeclarations (mode.dialect version)

/-- The signature with the flag that marks it as local, if that is the mode. -/
def Signature.inMode (s : SignatureV1_1) (mode : BindingMode) : SignatureV1_1 :=
  match mode with
  | .localMode => { s with flags := s.flags.insert .localRootSignature }
  | .globalMode | .unspecified => s

/-- The signature in the version that is asked for. That it can not be converted is reported at the
start of the text. -/
def Signature.inVersion (s : SignatureV1_1) (version : Version) (base : Location) :
    Except ParseError VersionedSignature :=
  match version with
  | .v1_1 => .ok (.v1_1 s)
  | .v1_0 =>
    match (VersionedSignature.v1_1 s).convert .v1_0 with
    | .ok converted => .ok converted
    | .error e => .error ⟨.conversionFailed e, base, 0⟩

/-- Reads a source whose first byte is at a location as a root signature. -/
def parse (source : String) (base : Location) (version : Version) (mode : BindingMode) :
    Except ParseError VersionedSignature := do
  let signature ← (readSource source base version mode).signature
  (signature.inMode mode).inVersion version base

end RootSignature
