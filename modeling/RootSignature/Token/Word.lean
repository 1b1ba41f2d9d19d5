import RootSignature.Token.Numeral

/-!
# Words

A text that starts with a letter or an underscore is read as a word, which goes on through letters,
digits and underscores but not beyond `maxTokenLength` characters. A word is a register, or a
keyword, or means nothing. Only registers tell capitals from small letters.
-/

namespace RootSignature

namespace Word

/-- A character that a word can start with. -/
def startsWith (c : Char) : Bool :=
  c.isAlpha || c = '_'

/-- A character that a word can go on with. -/
def continuesWith (c : Char) : Bool :=
  c.isAlphanum || c = '_'

/-- Reads the word that starts with a character. -/
def scan (c : Char) (cs : List Char) : List Char × List Char :=
  let tail := (cs.take (maxTokenLength - 1)).takeWhile continuesWith
  (c :: tail, cs.drop tail.length)

theorem append_scan (c : Char) (cs : List Char) : (scan c cs).1 ++ (scan c cs).2 = c :: cs := by
  simp [scan, takeWhile_take_append_drop]

end Word

/-- The register that a word names: the letter of its class and the digits of its number, which has
32 bits. -/
def Register.ofWord? : List Char → Option Register
  | [] => none
  | letter :: digits => do
    let registerClass ← RegisterClass.ofLetter? letter
    guard (!digits.isEmpty && digits.all Char.isDigit && digitsValue digits < UInt32.size)
    return ⟨registerClass, UInt32.ofNat (digitsValue digits)⟩

/-- The token of a word. -/
def Word.token (word : List Char) : Token :=
  match Register.ofWord? word with
  | some r => .register r
  | none => (Keyword.ofWord? word).elim .unknown .keyword

/-- A word is not the end. -/
theorem Word.token_ne_eof (word : List Char) : Word.token word ≠ .eof := by
  unfold Word.token
  cases Register.ofWord? word <;> cases Keyword.ofWord? word <;> simp

end RootSignature
