import RootSignature.Location
import RootSignature.Text
import RootSignature.Token.Word

/-!
# Lexemes

A lexeme is a token together with its text and its location. `lexemesFrom` cuts a text into lexemes:
spaces separate them and are dropped, and nothing else is. Every character that starts no other
token is a token of its own, which means nothing.
-/

namespace RootSignature

/-- A token with the text that it was read from and the location of that text. -/
structure Lexeme where
  /-- The token. -/
  token : Token
  /-- The exact text of the token. -/
  text : String
  /-- The location of the first byte of the text. -/
  location : Location
deriving DecidableEq

/-- The number of bytes of the text. -/
def Lexeme.width (l : Lexeme) : Nat :=
  l.text.utf8ByteSize

/-- The lexeme that marks the end of a text. -/
def Lexeme.endAt (location : Location) : Lexeme :=
  ⟨.eof, "", location⟩

/-! ## The first token of a text -/

/-- The first token of a text, cut off from the rest. -/
structure FirstToken where
  /-- The token. -/
  token : Token
  /-- The characters of the token. -/
  text : List Char
  /-- The characters after the token. -/
  rest : List Char

/-- Cuts the first token off a text that starts with a character, which is not a space. -/
def FirstToken.scan (c : Char) (cs : List Char) : FirstToken :=
  match Token.ofPunctuation? c with
  | some token => ⟨token, [c], cs⟩
  | none =>
    if Numeral.startsWith c then
      let (numeral, rest) := Numeral.scan (c :: cs)
      ⟨numeral.token, numeral.toList, rest⟩
    else if Word.startsWith c then
      let (word, rest) := Word.scan c cs
      ⟨Word.token word, word, rest⟩
    else ⟨.unknown, [c], cs⟩

namespace FirstToken

/-- The first token and the rest make up the text. -/
theorem text_append_rest (c : Char) (cs : List Char) :
    (scan c cs).text ++ (scan c cs).rest = c :: cs := by
  unfold scan
  split
  · rfl
  · split
    · exact Numeral.toList_append_scan (c :: cs)
    · split
      · exact Word.append_scan c cs
      · rfl

/-- The first token is not empty. -/
theorem text_ne_nil (c : Char) (cs : List Char) : (scan c cs).text ≠ [] := by
  unfold scan
  split
  · simp
  · split
    · next h => exact Numeral.toList_scan_ne_nil h cs
    · split <;> simp [Word.scan]

/-- What is left after the first token is shorter than the text. -/
theorem length_rest_lt (c : Char) (cs : List Char) :
    (scan c cs).rest.length < (c :: cs).length := by
  rw [← text_append_rest c cs, List.length_append]
  have := List.length_pos_iff.2 (text_ne_nil c cs)
  omega

/-- No text is read as the end. -/
theorem token_scan_ne_eof (c : Char) (cs : List Char) : (scan c cs).token ≠ .eof := by
  unfold scan
  split
  · next token h =>
      unfold Token.ofPunctuation? at h
      split at h <;> cases h <;> simp
  · split
    · obtain ⟨numeral, rest⟩ := Numeral.scan (c :: cs)
      exact numeral.token_ne_eof
    · split
      · obtain ⟨word, rest⟩ := Word.scan c cs
        exact Word.token_ne_eof word
      · simp

end FirstToken

/-! ## All tokens of a text -/

/-- The lexemes of a text that starts so many bytes after a location. -/
def lexemesFrom (base : Location) (offset : Nat) : List Char → List Lexeme
  | [] => []
  | c :: cs =>
    if c = ' ' then lexemesFrom base (offset + 1) cs
    else
      let first := FirstToken.scan c cs
      ⟨first.token, String.ofList first.text, base.offset offset⟩ ::
        lexemesFrom base (offset + byteLength first.text) first.rest
termination_by cs => cs.length
decreasing_by
  · simp
  · exact FirstToken.length_rest_lt c cs

end RootSignature
