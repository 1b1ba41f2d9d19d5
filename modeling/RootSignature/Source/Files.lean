import RootSignature.Location
import RootSignature.Text

/-!
# Source files

The texts that are loaded together. Each is given a block of locations, one for every byte and one
for the end, directly after the block of the text before, so that a location alone tells the text
and the place in it.
-/

namespace RootSignature

/-- A loaded text. -/
structure SourceFile where
  /-- The name of the text in messages. -/
  name : String
  /-- The text. -/
  text : String
  /-- The location of the first byte. -/
  base : Location
deriving DecidableEq

namespace SourceFile

/-- The number of bytes of the text. -/
def size (f : SourceFile) : Nat :=
  f.text.utf8ByteSize

/-- A location belongs to the text, or to its end. -/
def contains (f : SourceFile) (l : Location) : Bool :=
  f.base.number ≤ l.number && l.number < f.base.number + .ofNat (f.size + 1)

/-- The location of the byte at an offset. The end of the text has one too. -/
def location? (f : SourceFile) (offset : Nat) : Option Location :=
  if offset ≤ f.size then some (f.base.offset offset) else none

end SourceFile

/-- The loaded texts, in the order in which they were added. -/
structure SourceFiles where
  /-- The texts. -/
  files : List SourceFile := []

/-- A place in a loaded text. -/
structure SourcePosition where
  /-- The index of the text. -/
  index : Nat
  /-- The text. -/
  file : SourceFile
  /-- The number of bytes before the place. -/
  offset : Nat
deriving DecidableEq

namespace SourceFiles

/-- The location at which the next text will start. -/
def nextBase (s : SourceFiles) : Location :=
  match s.files.getLast? with
  | none => .first
  | some f => f.base.offset (f.size + 1)

/-- The texts with one more. -/
def add (s : SourceFiles) (name text : String) : SourceFiles :=
  ⟨s.files ++ [⟨name, text, s.nextBase⟩]⟩

/-- The texts of a list of names and texts. -/
def ofList (texts : List (String × String)) : SourceFiles :=
  texts.foldl (fun s (name, text) => s.add name text) {}

/-- The place that a location stands for, if it is in any text. -/
def position? (s : SourceFiles) (l : Location) : Option SourcePosition :=
  s.files.zipIdx.findSome? fun (file, index) =>
    if file.contains l then some ⟨index, file, l.raw - file.base.raw⟩ else none

end SourceFiles

end RootSignature
