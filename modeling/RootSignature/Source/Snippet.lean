import RootSignature.Source.Files

/-!
# Snippets

The line of a text around a place, with a mark below it: a caret under the place, indented by the
characters before it, and a tilde for every further byte of the marked range. The mark ends where
the line ends. There is no snippet for a place inside a character.
-/

namespace RootSignature

/-- A line of a text that is cut at a place, and the number of bytes to mark from there. -/
structure Snippet where
  /-- The part of the line before the place. -/
  before : List Char
  /-- The part of the line from the place on. -/
  after : List Char
  /-- The number of bytes to mark, if the line goes on for so long. -/
  width : Nat
deriving DecidableEq

namespace Snippet

/-- The snippet around the place after so many bytes, or `none` if that is inside a character. -/
def ofOffset? (text : List Char) (offset width : Nat) : Option Snippet :=
  (splitAtByte? text offset).map fun (before, after) =>
    { before := (before.reverse.takeWhile (· ≠ '\n')).reverse
      after := after.takeWhile (· ≠ '\n')
      width }

/-- The line around the place. -/
def line (s : Snippet) : List Char :=
  s.before ++ s.after

/-- The number of bytes that are marked: at least one, and no more than the line has. -/
def markWidth (s : Snippet) : Nat :=
  max 1 (min s.width (byteLength s.after))

/-- The line with the mark. -/
def mark (s : Snippet) : List Char :=
  List.replicate s.before.length ' ' ++ '^' :: List.replicate (s.markWidth - 1) '~'

/-- The line and, below it, the mark. -/
def text (s : Snippet) : String :=
  String.ofList (s.line ++ '\n' :: s.mark ++ ['\n'])

end Snippet

/-- The text of the snippet around a location. A location in no text is said to be invalid; there is
no answer for a location inside a character. -/
def SourceFiles.snippet? (s : SourceFiles) (l : Location) (width : Nat) : Option String :=
  match s.position? l with
  | none => some "Invalid source\n"
  | some p => (Snippet.ofOffset? p.file.text.toList p.offset width).map Snippet.text

end RootSignature
