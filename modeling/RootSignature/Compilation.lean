import RootSignature.Parse
import RootSignature.Source.Message

/-!
# Compilation

A request to compile one source, from its name and its text to a signature or to an error that can
be shown.
-/

namespace RootSignature

/-- A request to compile a source. -/
structure CompilationRequest where
  /-- The name of the source in messages. -/
  fileName : String
  /-- The source. -/
  source : String
  /-- The version to describe the signature in. -/
  version : Version := .latest
  /-- How the signature will be bound. -/
  flags : FlagSet CompilationFlag := ∅

/-- Why a request has no signature as its answer. -/
inductive CompilationError where
  /-- The source is no root signature, and the text says why. -/
  | refused (text : String)
  /-- The signature can not be global and local at once. -/
  | conflictingModes
  /-- The source is no root signature, for a reason whose place can not be shown. -/
  | unshowable (error : ParseError)
deriving DecidableEq

namespace CompilationError

/-- The error of a source, to be shown with the source itself. -/
def ofParseError (files : SourceFiles) (e : ParseError) : CompilationError :=
  match e.render? files with
  | some text => refused text
  | none => unshowable e

/-- The text of an error. -/
def message : CompilationError → String
  | refused text => text
  | conflictingModes => "global and local root signature modes can not both be set"
  | unshowable e => e.reason.message

end CompilationError

namespace CompilationRequest

/-- The request for a signature in a version. -/
def withVersion (r : CompilationRequest) (version : Version) : CompilationRequest :=
  { r with version }

/-- The request with these flags in place of its own. -/
def withFlags (r : CompilationRequest) (flags : FlagSet CompilationFlag) : CompilationRequest :=
  { r with flags }

/-- The request for a global signature. -/
def asGlobal (r : CompilationRequest) : CompilationRequest :=
  r.withFlags (r.flags.insert .globalRootSignature)

/-- The request for a local signature. -/
def asLocal (r : CompilationRequest) : CompilationRequest :=
  r.withFlags (r.flags.insert .localRootSignature)

/-- The source of a request, loaded alone. -/
def files (r : CompilationRequest) : SourceFiles :=
  .ofList [(r.fileName, r.source)]

/-- Answers a request. -/
def compile (r : CompilationRequest) : Except CompilationError VersionedSignature :=
  match r.flags.bindingMode? with
  | none => .error .conflictingModes
  | some mode =>
    match parse r.source .first r.version mode with
    | .ok signature => .ok signature
    | .error e => .error (.ofParseError r.files e)

end CompilationRequest

/-- The report of a text that is handed on without having been read. -/
def reportUnparsed (fileName text : String) : CompilationError :=
  .ofParseError (.ofList [(fileName, text)]) (.ofUnparsed text .first)

end RootSignature
