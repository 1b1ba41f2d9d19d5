import RootSignature.Parse

/-!
# The log of a reading

What is noted down while a source is read as a root signature: the span of the whole, an entry for
each declaration that has been read, and the outcome. The log is computed from the same reading as
the answer of `parse`.
-/

namespace RootSignature

/-- How much an entry matters. -/
inductive LogLevel where
  | debug
  | trace
deriving DecidableEq

/-- The name of a level. -/
def LogLevel.text : LogLevel → String
  | debug => "DEBUG"
  | trace => "TRACE"

/-- An entry of the log. -/
inductive LogEntry where
  /-- A source of so many bytes is going to be read. -/
  | opened (byteCount : Nat) (version : Version)
  /-- Reading starts. -/
  | entered
  /-- A declaration has been read. -/
  | declared (kind : String)
  /-- The source has been refused. -/
  | refused (message : String)
  /-- The source has been read. -/
  | accepted (parameterCount staticSamplerCount : Nat)
  /-- The signature is going to be converted. -/
  | converting (source target : Version)
  /-- The signature can not be converted. -/
  | unconverted (message : String)
  /-- Reading has ended. -/
  | exited
deriving DecidableEq

namespace LogEntry

/-- The name of the span in which a source is read. -/
def spanName : String := "parse_root_signature"

/-- The level of an entry. -/
def level : LogEntry → LogLevel
  | declared _ => .trace
  | _ => .debug

/-- The text of an entry. Entries about the span have none. -/
def message? : LogEntry → Option String
  | opened _ _ | entered | exited => none
  | declared kind => some kind
  | refused _ => some "root signature failed to parse"
  | accepted _ _ => some "parsed root signature"
  | converting _ _ => some "converting root signature"
  | unconverted _ => some "root signature failed to convert"

end LogEntry

/-- The entries about the conversion of a signature of version 1.1. There are none if it has the
version already. -/
def Signature.conversionLog (s : SignatureV1_1) (version : Version) : List LogEntry :=
  match version with
  | .v1_1 => []
  | .v1_0 =>
    .converting .v1_1 .v1_0 ::
      match (VersionedSignature.v1_1 s).convert .v1_0 with
      | .ok _ => []
      | .error e => [.unconverted e.message]

/-- The entries about the outcome of a reading. -/
def Reading.outcomeLog (r : Reading) (version : Version) (mode : BindingMode) : List LogEntry :=
  match r.signature with
  | .error e => [.refused e.reason.message]
  | .ok s =>
    .accepted s.parameters.length s.staticSamplers.length ::
      (s.inMode mode).conversionLog version

/-- The log of reading a source. -/
def parseLog (source : String) (base : Location) (version : Version) (mode : BindingMode) :
    List LogEntry :=
  let reading := readSource source base version mode
  [.opened source.utf8ByteSize version, .entered] ++
    reading.declarations.map (fun d => .declared d.kindText) ++
    reading.outcomeLog version mode ++ [.exited]

end RootSignature
