import RootSignature.Binary.Shortest
import RootSignature.Token.Lexeme

/-!
# Descriptions of tokens

Tokens and lexemes as short texts, for logs and tests: the kind of the token with its value in
parentheses. Floats are written in their shortest form, and the text of a lexeme is quoted as it
is.
-/

namespace RootSignature

/-- The capital letter of a register class. -/
def RegisterClass.capital (r : RegisterClass) : Char :=
  r.letter.toUpper

/-- A token as a short text. -/
def Token.describe : Token → String
  | .eof => "Eof"
  | .comma => "Comma"
  | .leftParen => "LeftParen"
  | .rightParen => "RightParen"
  | .equals => "Equals"
  | .verticalBar => "VerticalBar"
  | .uint n => s!"LiteralUInt({n})"
  | .int n => s!"LiteralInt({n})"
  | .float x => s!"LiteralFloat({x.text})"
  | .register r => s!"Register({r.registerClass.capital}({r.index}))"
  | .keyword k => s!"Keyword({k.name})"
  | .unknown => "Unknown"

/-- A lexeme as a short text: its token, its text and its location. -/
def Lexeme.describe (l : Lexeme) : String :=
  s!"{l.token.describe} \"{l.text}\" @ {l.location.raw}"

end RootSignature
