import RootSignature.Proofs.Token.Lookahead

/-!
# Texts put together at a delimiter

No token goes on across a delimiter, so the tokens of two texts with a delimiter between them are
those of the first text, the delimiter itself unless it is a space, and those of the second text
(`upToEnd_append_delimiter`). The second text stands further on than it would alone, and this is all
that its tokens can tell of the first one (`lexemesFrom_placed`). The first text must be read to its
end, so it has no NUL; the second may have one.
-/

namespace RootSignature

/-! ## Texts in other places -/

/-- A lexeme of a text whose bytes are counted from the first location, where the text stands so
many bytes behind another location. -/
def Lexeme.placed (base : Location) (n : Nat) (l : Lexeme) : Lexeme :=
  { l with location := base.offset (n + l.location.raw) }

/-- The lexemes of a text are the same in every place, up to their locations. -/
theorem lexemesFrom_placed (base : Location) (n offset : Nat) (cs : List Char) :
    lexemesFrom base (n + offset) cs = (lexemesFrom .first offset cs).map (.placed base n) := by
  fun_induction lexemesFrom .first offset cs with
  | case1 offset => rw [lexemesFrom, List.map_nil]
  | case2 offset cs ih => rw [lexemesFrom_space, Nat.add_assoc, ih]
  | case3 offset c cs hc first ih =>
      have hfrom : lexemesFrom base (n + offset) (c :: cs) =
          ⟨first.token, String.ofList first.text, base.offset (n + offset)⟩ ::
            lexemesFrom base (n + offset + byteLength first.text) first.rest :=
        lexemesFrom_of_scan base (n + offset) hc rfl
      rw [hfrom, Nat.add_assoc, ih, List.map_cons, Lexeme.placed, Location.raw_first_offset,
        Location.offset_add_mod]

namespace TokenStream

/-- The lexemes of a stream, of which the last is the end. -/
def upToEnd (s : TokenStream) : List Lexeme :=
  s.lexemes ++ [.endAt s.stop]

/-- The lexemes of a source up to its end are those of its readable text, and the end behind
them. -/
theorem upToEnd_ofSource (source : String) (base : Location) :
    (ofSource source base).upToEnd = lexemesFrom base 0 (readableText source) ++
      [.endAt (base.offset (byteLength (readableText source)))] := rfl

/-- The lexemes of a source in another place, with its end. -/
theorem upToEnd_placed (source : String) (base : Location) (n : Nat) :
    (ofSource source .first).upToEnd.map (.placed base n) =
      lexemesFrom base n (readableText source) ++
        [.endAt (base.offset (n + byteLength (readableText source)))] := by
  rw [upToEnd_ofSource, List.map_append, ← lexemesFrom_placed, List.map_singleton, Lexeme.placed,
    Lexeme.endAt, Location.raw_first_offset, Location.offset_add_mod]
  rfl

end TokenStream

/-! ## Delimiters -/

/-- A text without NUL is read up to a character behind it, and from there on. -/
theorem readableText_append {a : String} (ha : '\x00' ∉ a.toList) {c : Char} (hc : c ≠ '\x00')
    (b : String) :
    readableText (a ++ String.singleton c ++ b) = a.toList ++ c :: readableText b := by
  have htext : (String.singleton c ++ b).toList = c :: b.toList := by
    simp
  rw [String.append_assoc, readableText_append_left ha, readableText, htext,
    List.takeWhile_cons_of_pos]
  · rfl
  · exact decide_eq_true hc

/-- A delimiter does not end a source. -/
theorem ne_nul_of_isDelimiter {c : Char} (h : isDelimiter c = true) : c ≠ '\x00' := by
  rintro rfl
  cases h

/-- A delimiter takes one byte. -/
theorem utf8Size_of_isDelimiter {c : Char} (h : isDelimiter c = true) : c.utf8Size = 1 := by
  rcases isDelimiter_iff.1 h with rfl | rfl | rfl | rfl | rfl | rfl <;> rfl

/-- The lexeme of a delimiter, if it has one: a space has none. -/
def delimiterLexeme? (c : Char) (location : Location) : Option Lexeme :=
  (Token.ofPunctuation? c).map fun token => ⟨token, String.singleton c, location⟩

/-- A delimiter at the start of a text is a token of its own, or a space. -/
theorem lexemesFrom_delimiter (base : Location) (offset : Nat) {c : Char}
    (hc : isDelimiter c = true) (cs : List Char) :
    lexemesFrom base offset (c :: cs) =
      (delimiterLexeme? c (base.offset offset)).toList ++ lexemesFrom base (offset + 1) cs := by
  unfold delimiterLexeme?
  cases hmark : Token.ofPunctuation? c with
  | none =>
      obtain rfl : c = ' ' := by simpa [isDelimiter, hmark] using hc
      exact lexemesFrom_space base offset cs
  | some token =>
      rw [lexemesFrom_punctuation base offset hmark, utf8Size_of_isDelimiter hc]
      rfl

/-- The lexemes of two texts with a delimiter between them: those of the first, that of the
delimiter, and those of the second, which is moved behind the delimiter. -/
theorem lexemes_append_delimiter {a : String} (ha : '\x00' ∉ a.toList) {c : Char}
    (hc : isDelimiter c = true) (b : String) (base : Location) :
    (TokenStream.ofSource (a ++ String.singleton c ++ b) base).lexemes =
      (TokenStream.ofSource a base).lexemes ++
        ((delimiterLexeme? c (base.offset a.utf8ByteSize)).toList ++
          lexemesFrom base (a.utf8ByteSize + 1) (readableText b)) := by
  have htail : ∀ d ∈ (c :: readableText b).head?, isDelimiter d = true := by
    intro d hd
    cases hd
    exact hc
  show lexemesFrom base 0 (readableText (a ++ String.singleton c ++ b)) =
    lexemesFrom base 0 (readableText a) ++ _
  rw [readableText_append ha (ne_nul_of_isDelimiter hc), readableText_eq_toList ha,
    lexemesFrom_append base 0 _ htail, lexemesFrom_delimiter base _ hc, byteLength_toList,
    Nat.zero_add]

/-- The end of two texts with a delimiter between them is behind the second one. -/
theorem stop_append_delimiter {a : String} (ha : '\x00' ∉ a.toList) {c : Char}
    (hc : isDelimiter c = true) (b : String) (base : Location) :
    (TokenStream.ofSource (a ++ String.singleton c ++ b) base).stop =
      base.offset (a.utf8ByteSize + 1 + byteLength (readableText b)) := by
  show base.offset (byteLength (readableText (a ++ String.singleton c ++ b))) = _
  rw [readableText_append ha (ne_nul_of_isDelimiter hc), byteLength_append, byteLength_cons,
    byteLength_toList, utf8Size_of_isDelimiter hc, Nat.add_assoc]

/-- The tokens of two texts with a delimiter between them, up to the end: those of the first text
without its end, that of the delimiter unless it is a space, and those of the second text, in the
place behind the delimiter instead of the place that they have when the text stands alone. -/
theorem upToEnd_append_delimiter (a b : String) (c : Char) (base : Location)
    (ha : '\x00' ∉ a.toList) (hc : c ∈ [' ', ',', '(', ')', '=', '|']) :
    (TokenStream.ofSource (a ++ String.singleton c ++ b) base).upToEnd =
        (TokenStream.ofSource a base).lexemes ++
          (delimiterLexeme? c (base.offset a.utf8ByteSize)).toList ++
          (TokenStream.ofSource b .first).upToEnd.map (.placed base (a.utf8ByteSize + 1)) ∧
      (TokenStream.ofSource b base).upToEnd =
        (TokenStream.ofSource b .first).upToEnd.map (.placed base 0) := by
  have hdelimiter : isDelimiter c = true := isDelimiter_iff.2 (by simpa using hc)
  constructor
  · rw [TokenStream.upToEnd_placed, TokenStream.upToEnd, lexemes_append_delimiter ha hdelimiter,
      stop_append_delimiter ha hdelimiter]
    simp only [List.append_assoc]
  · rw [TokenStream.upToEnd_placed, TokenStream.upToEnd_ofSource, Nat.zero_add]

/-- A numeral that lacks the digits of its exponent does not go on behind an equals sign. -/
theorem upToEnd_append_delimiter_malformed :
    '\x00' ∉ "1e+".toList ∧ '=' ∈ [' ', ',', '(', ')', '=', '|'] ∧
      (TokenStream.ofSource ("1e+" ++ String.singleton '=' ++ "7") .first).upToEnd =
        [⟨.unknown, "1e+", ⟨0⟩⟩, ⟨.equals, "=", ⟨3⟩⟩, ⟨.uint 7, "7", ⟨4⟩⟩, .endAt ⟨5⟩] := by
  have hnul : '\x00' ∉ "1e+".toList := by decide
  have hc : '=' ∈ [' ', ',', '(', ')', '=', '|'] := by decide
  refine ⟨hnul, hc, ?_⟩
  rw [(upToEnd_append_delimiter "1e+" "7" '=' .first hnul hc).1]
  decide +kernel

end RootSignature
