import RootSignature.Grammar.Error
import RootSignature.Source.Line
import RootSignature.Source.Snippet

/-!
# Messages

An error message as it is shown: the place, the message, and a snippet of the source. A message
about the unknown location is shown on its own. A location inside a character has no snippet, so
there is nothing to show for it.
-/

namespace RootSignature

/-- A message about a range of a source. -/
structure SourceMessage where
  /-- What is to be said. -/
  text : String
  /-- The location of the first byte of the range. -/
  location : Location
  /-- The number of bytes of the range. -/
  width : Nat
deriving DecidableEq

namespace SourceMessage

/-- The message as it is shown. -/
def render? (files : SourceFiles) (m : SourceMessage) : Option String :=
  if m.location = .unknown then some s!"error: {m.text}\n"
  else
    let place := FilePosition.textOf (files.filePosition? m.location)
    (files.snippet? m.location m.width).map fun snippet =>
      s!"{place}: error: {m.text}\n{snippet}"

/-- Several messages as they are shown one after the other. -/
def renderAll? (files : SourceFiles) (ms : List SourceMessage) : Option String :=
  (ms.mapM (render? files)).map String.join

end SourceMessage

/-- A parse error as a message. -/
def ParseError.sourceMessage (e : ParseError) : SourceMessage :=
  ⟨e.reason.message, e.location, e.width⟩

/-- A parse error as it is shown. -/
def ParseError.render? (files : SourceFiles) (e : ParseError) : Option String :=
  e.sourceMessage.render? files

end RootSignature
