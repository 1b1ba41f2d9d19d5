import RootSignature.Token.Lexeme

/-!
# Token streams

A token stream is the list of lexemes that have not been taken yet, followed without end by the
lexeme that marks the end of the text. Taking a lexeme is the only step that changes a stream;
looking at the next one leaves it as it is.
-/

namespace RootSignature

/-- The part of a source that is read: the characters before the first NUL. -/
def readableText (source : String) : List Char :=
  source.toList.takeWhile (· ≠ '\x00')

/-- The lexemes of a source that are still to be taken. -/
structure TokenStream where
  /-- The lexemes before the end. -/
  lexemes : List Lexeme
  /-- The location of the end. -/
  stop : Location

namespace TokenStream

/-- The stream of all lexemes of a source whose first byte is at a location. -/
def ofSource (source : String) (base : Location) : TokenStream where
  lexemes := lexemesFrom base 0 (readableText source)
  stop := base.offset (byteLength (readableText source))

/-- The next lexeme, which stays in the stream. -/
def peek (s : TokenStream) : Lexeme :=
  s.lexemes.headD (.endAt s.stop)

/-- Takes the next lexeme. -/
def next (s : TokenStream) : Lexeme × TokenStream :=
  (s.peek, { s with lexemes := s.lexemes.tail })

/-- No lexeme is left before the end. -/
def atEnd (s : TokenStream) : Bool :=
  s.lexemes.isEmpty

end TokenStream

end RootSignature
