import RootSignature.Token.Keyword

/-!
# Tokens

The units that the text of a root signature is cut into. A token carries the value that its text
denotes, so two texts of one number give the same token; the text itself, and where it stands, is
kept beside the token in a lexeme.
-/

namespace RootSignature

/-- The class of a register. -/
inductive RegisterClass where
  /-- Shader resource views. -/
  | t
  /-- Unordered access views. -/
  | u
  /-- Constant buffers. -/
  | b
  /-- Samplers. -/
  | s
deriving DecidableEq

namespace RegisterClass

/-- The letter that a register of the class is written with. -/
def letter : RegisterClass → Char
  | t => 't'
  | u => 'u'
  | b => 'b'
  | s => 's'

/-- The class that a letter stands for. Capitals stand for none. -/
def ofLetter? : Char → Option RegisterClass
  | 't' => some t
  | 'u' => some u
  | 'b' => some b
  | 's' => some s
  | _ => none

theorem ofLetter?_eq_some_iff {c : Char} {r : RegisterClass} :
    ofLetter? c = some r ↔ c = r.letter := by
  constructor
  · intro h
    unfold ofLetter? at h
    split at h <;> first | (cases h; rfl) | cases h
  · rintro rfl
    cases r <;> rfl

end RegisterClass

/-- A register by its class and its number. -/
structure Register where
  /-- The class of the register. -/
  registerClass : RegisterClass
  /-- The number of the register. -/
  index : UInt32
deriving DecidableEq

/-- A token of a root signature. -/
inductive Token where
  /-- The end of the text. -/
  | eof
  | comma
  | leftParen
  | rightParen
  | equals
  | verticalBar
  /-- A whole number that is not written with a minus sign. -/
  | uint (value : UInt32)
  /-- A whole number that is written with a minus sign. -/
  | int (value : Int32)
  /-- A number with a point, an exponent or a suffix. -/
  | float (value : Binary32)
  /-- A register. -/
  | register (r : Register)
  /-- A keyword. -/
  | keyword (k : Keyword)
  /-- A text that means nothing. -/
  | unknown
deriving DecidableEq

namespace Token

/-- The token of a punctuation mark. -/
def ofPunctuation? : Char → Option Token
  | ',' => some comma
  | '(' => some leftParen
  | ')' => some rightParen
  | '=' => some equals
  | '|' => some verticalBar
  | _ => none

end Token

/-- The length at which a run of digits or of word characters is cut off. The characters that
follow belong to the next token. -/
def maxTokenLength : Nat := 63

end RootSignature
