import RootSignature.Source.Files

/-!
# Lines and columns

Places in a text as people count them: the lines from one, and in a line the bytes from one. Every
newline ends a line.
-/

namespace RootSignature

/-- A line of a text and a column in it. -/
structure LineColumn where
  /-- The number of the line, from one. -/
  line : Nat := 1
  /-- The number of the byte in the line, from one. -/
  column : Nat := 1
deriving DecidableEq

namespace LineColumn

/-- The place so many bytes further on in a text. Inside a character every byte counts. -/
def advance (p : LineColumn) : Nat → List Char → LineColumn
  | 0, _ | _, [] => p
  | n + 1, c :: cs =>
    if c = '\n' then advance ⟨p.line + 1, 1⟩ n cs
    else if c.utf8Size ≤ n + 1 then
      advance { p with column := p.column + c.utf8Size } (n + 1 - c.utf8Size) cs
    else { p with column := p.column + (n + 1) }

end LineColumn

/-- A line and a column in a named text. -/
structure FilePosition where
  /-- The name of the text. -/
  name : String
  /-- The place in the text. -/
  place : LineColumn
deriving DecidableEq

instance : ToString FilePosition where
  toString p := s!"{p.name}:{p.place.line}:{p.place.column}"

/-- What a place that is in no text is called. -/
def FilePosition.textOf : Option FilePosition → String
  | some p => toString p
  | none => "<unknown>"

/-- The line and the column of a place. -/
def SourcePosition.filePosition (p : SourcePosition) : FilePosition :=
  ⟨p.file.name, LineColumn.advance {} p.offset p.file.text.toList⟩

/-- The line and the column that a location stands for, if it is in any text. -/
def SourceFiles.filePosition? (s : SourceFiles) (l : Location) : Option FilePosition :=
  (s.position? l).map SourcePosition.filePosition

end RootSignature
