import RootSignature.Proofs.Token.Lookahead

/-!
# Tokens that can be written

A token can be written if some text is read as this token and nothing more (`Token.IsSpelled`). All
punctuation marks, whole numbers without a minus sign, registers and keywords can be written, and so
can whatever has been read of a source. With spaces between them, the texts of tokens make a source
that is read as these tokens (`exists_source_of_isSpelled`).
-/

namespace RootSignature

/-- The text is read as the token, wherever it stands by itself. -/
def Token.IsSpelledBy (t : Token) (cs : List Char) : Prop :=
  '\x00' ∉ cs ∧ ∀ base offset, (lexemesFrom base offset cs).map Lexeme.token = [t]

/-- Some text is read as the token. -/
def Token.IsSpelled (t : Token) : Prop :=
  ∃ cs, t.IsSpelledBy cs

namespace Token

variable {t : Token}

/-- A token can be written as a text from which it alone is scanned. -/
theorem isSpelled_of_scan {c : Char} {cs : List Char} (hnul : '\x00' ∉ c :: cs) (hc : c ≠ ' ')
    (hscan : FirstToken.scan c cs = ⟨t, c :: cs, []⟩) : t.IsSpelled := by
  refine ⟨c :: cs, hnul, fun base offset => ?_⟩
  rw [lexemesFrom_of_scan base offset hc hscan, lexemesFrom]
  rfl

/-- The text of a lexeme of a source is read as its token. -/
theorem isSpelledBy_of_mem {source : String} {base : Location} {l : Lexeme}
    (hl : l ∈ (TokenStream.ofSource source base).lexemes) : l.token.IsSpelledBy l.text.toList := by
  obtain ⟨front, back, hls⟩ := List.append_of_mem hl
  obtain ⟨before, after, htext, -⟩ := (lexemesFrom_tiles base 0 (readableText source)).cut hls
  refine ⟨fun hnul => ?_, fun base' offset' => ?_⟩
  · refine nul_notMem_readableText source ?_
    rw [htext]
    exact List.mem_append_right _ (List.mem_append_left _ hnul)
  · rw [lexemesFrom_text hl base' offset']
    rfl

/-- What has been read of a source can be written by itself. -/
theorem isSpelled_of_mem {source : String} {base : Location}
    (h : t ∈ (TokenStream.ofSource source base).lexemes.map Lexeme.token) : t.IsSpelled := by
  obtain ⟨l, hl, rfl⟩ := List.mem_map.1 h
  exact ⟨l.text.toList, isSpelledBy_of_mem hl⟩

/-! ## Punctuation -/

/-- A punctuation mark can be written. -/
theorem isSpelled_of_punctuation {c : Char} (hnul : c ≠ '\x00') (h : ofPunctuation? c = some t) :
    t.IsSpelled := by
  refine ⟨[c], by simpa using hnul.symm, fun base offset => ?_⟩
  rw [lexemesFrom_punctuation base offset h, lexemesFrom]
  rfl

theorem isSpelled_comma : comma.IsSpelled := isSpelled_of_punctuation (c := ',') (by decide) rfl

theorem isSpelled_leftParen : leftParen.IsSpelled :=
  isSpelled_of_punctuation (c := '(') (by decide) rfl

theorem isSpelled_rightParen : rightParen.IsSpelled :=
  isSpelled_of_punctuation (c := ')') (by decide) rfl

theorem isSpelled_equals : equals.IsSpelled := isSpelled_of_punctuation (c := '=') (by decide) rfl

theorem isSpelled_verticalBar : verticalBar.IsSpelled :=
  isSpelled_of_punctuation (c := '|') (by decide) rfl

end Token

/-! ## Numbers -/

/-- Characters that all satisfy a condition are taken all, if there is room. -/
theorem takeWhile_take_eq_self {p : Char → Bool} {cs : List Char} {room : Nat}
    (hp : ∀ c ∈ cs, p c = true) (hroom : cs.length ≤ room) : (cs.take room).takeWhile p = cs := by
  rw [List.take_of_length_le hroom, List.takeWhile_eq_self_iff]
  exact hp

/-- A character that is no delimiter is neither a space nor a mark. -/
theorem of_not_isDelimiter {c : Char} (h : isDelimiter c = false) :
    c ≠ ' ' ∧ Token.ofPunctuation? c = none := by
  simpa [isDelimiter] using h

theorem isDelimiter_of_isDigit {c : Char} (h : c.isDigit = true) : isDelimiter c = false := by
  cases hc : isDelimiter c with
  | false => rfl
  | true => rw [isDigit_of_isDelimiter c hc] at h; cases h

theorem isSign_of_isDigit {c : Char} (h : c.isDigit = true) : Significand.isSign c = false := by
  have hplus : c ≠ '+' := by
    rintro rfl
    cases h
  have hminus : c ≠ '-' := by
    rintro rfl
    cases h
  simp [Significand.isSign, hplus, hminus]

/-- A run of digits that is not cut off is read as a numeral that has no other parts. -/
theorem Numeral.scan_digits {ds : List Char} (hne : ds ≠ []) (hdigits : ∀ d ∈ ds, d.isDigit = true)
    (hlength : ds.length ≤ maxTokenLength) : scan ds = (⟨⟨none, ds, none⟩, none, none⟩, []) := by
  have hsignificand : Significand.scan ds = (⟨none, ds, none⟩, []) := by
    obtain ⟨d, ds, rfl⟩ := List.exists_cons_of_ne_nil hne
    have hsign := isSign_of_isDigit (hdigits d (List.mem_cons_self ..))
    have htake := takeWhile_take_eq_self hdigits hlength
    simp [Significand.scan, takeIf, hsign, takeDigits, htake]
  have hnonempty : ds.isEmpty = false := by simpa using hne
  simp [scan, hsignificand, Significand.digits, Exponent.scan?, takeIf, hnonempty]

/-- The decimal digits of a number of 32 bits. -/
theorem toDigits_spec (n : UInt32) :
    Nat.toDigits 10 n.toNat ≠ [] ∧ (∀ d ∈ Nat.toDigits 10 n.toNat, d.isDigit = true) ∧
      (Nat.toDigits 10 n.toNat).length ≤ 10 ∧ digitsValue (Nat.toDigits 10 n.toNat) = n.toNat := by
  refine ⟨Nat.toDigits_ne_nil, fun d hd => Nat.isDigit_of_mem_toDigits (by decide) (by decide) hd,
    ?_, Nat.ofDigitChars_toDigits (by decide) (by decide)⟩
  rw [Nat.length_toDigits_le_iff (by decide) (by decide)]
  exact Nat.lt_trans n.toNat_lt (by decide)

/-- A whole number is written in decimal digits. -/
theorem Token.isSpelled_uint (n : UInt32) : (uint n).IsSpelled := by
  obtain ⟨hne, hdigits, hlength, hvalue⟩ := toDigits_spec n
  have hscan := Numeral.scan_digits hne hdigits (Nat.le_trans hlength (by decide))
  have htoken : Numeral.token ⟨⟨none, Nat.toDigits 10 n.toNat, none⟩, none, none⟩ = uint n := by
    have hlt : n.toNat < UInt32.size := n.toNat_lt
    simp [Numeral.token, Numeral.isWellFormed, Significand.digits, Numeral.isFloat,
      Numeral.integerToken, Numeral.isNegative, hvalue, hlt]
  obtain ⟨d, ds, hds⟩ := List.exists_cons_of_ne_nil hne
  rw [hds] at hdigits hscan htoken
  have hd : d.isDigit = true := hdigits d (List.mem_cons_self ..)
  obtain ⟨hspace, hmark⟩ := of_not_isDelimiter (isDelimiter_of_isDigit hd)
  have hnul : '\x00' ∉ d :: ds := by
    intro hmem
    cases hdigits _ hmem
  have hfirst : FirstToken.scan d ds = ⟨uint n, d :: ds, []⟩ := by
    have hstart : Numeral.startsWith d = true := by simp [Numeral.startsWith, hd]
    simp [FirstToken.scan, hmark, hstart, hscan, htoken, Numeral.toList, Significand.toList]
  exact isSpelled_of_scan hnul hspace hfirst

/-! ## Words -/

/-- A word is neither punctuation nor a numeral. -/
theorem Word.of_startsWith {c : Char} (h : startsWith c = true) :
    isDelimiter c = false ∧ Numeral.startsWith c = false := by
  refine ⟨?_, ?_⟩
  · cases hc : isDelimiter c with
    | false => rfl
    | true => rcases isDelimiter_iff.1 hc with rfl | rfl | rfl | rfl | rfl | rfl <;> cases h
  · cases hc : Numeral.startsWith c with
    | false => rfl
    | true =>
        simp only [Numeral.startsWith, Significand.isSign, Bool.or_eq_true, decide_eq_true_eq] at hc
        rcases hc with (hdigit | rfl | rfl) | rfl
        · rcases Bool.or_eq_true_iff.1 h with halpha | hunderscore
          · have hle : c.toNat ≤ 57 :=
              UInt32.le_iff_toNat_le.1 (of_decide_eq_true (Bool.and_eq_true_iff.1 hdigit).2)
            have hge : 65 ≤ c.toNat := by
              rcases Bool.or_eq_true_iff.1 halpha with hupper | hlower
              · exact UInt32.le_iff_toNat_le.1 (of_decide_eq_true hupper).1
              · have hge : 97 ≤ c.toNat :=
                  UInt32.le_iff_toNat_le.1 (of_decide_eq_true (Bool.and_eq_true_iff.1 hlower).1)
                omega
            omega
          · obtain rfl : c = '_' := by simpa using hunderscore
            cases hdigit
        all_goals cases h

/-- What starts as a word is scanned as a word. -/
theorem FirstToken.scan_word {c : Char} (h : Word.startsWith c = true) (cs : List Char) :
    scan c cs = ⟨Word.token (Word.scan c cs).1, (Word.scan c cs).1, (Word.scan c cs).2⟩ := by
  obtain ⟨hdelimiter, hnumeral⟩ := Word.of_startsWith h
  have hmark := (of_not_isDelimiter hdelimiter).2
  simp [scan, hmark, hnumeral, h]

/-- A word that is not cut off is the text of its token. -/
theorem Token.isSpelled_of_word {c : Char} {cs : List Char} (hstart : Word.startsWith c = true)
    (hcontinues : ∀ d ∈ cs, Word.continuesWith d = true) (hlength : cs.length < maxTokenLength) :
    (Word.token (c :: cs)).IsSpelled := by
  have hspace := (of_not_isDelimiter (Word.of_startsWith hstart).1).1
  have hscan : Word.scan c cs = (c :: cs, []) := by
    have htake : (cs.take (maxTokenLength - 1)).takeWhile Word.continuesWith = cs :=
      takeWhile_take_eq_self hcontinues (Nat.le_sub_one_of_lt hlength)
    simp [Word.scan, htake]
  have hnul : '\x00' ∉ c :: cs := by
    intro hmem
    rcases List.mem_cons.1 hmem with rfl | hmem
    · cases hstart
    · cases hcontinues _ hmem
  have hfirst : FirstToken.scan c cs = ⟨Word.token (c :: cs), c :: cs, []⟩ := by
    rw [FirstToken.scan_word hstart, hscan]
  exact isSpelled_of_scan hnul hspace hfirst

/-- A register is written as the letter of its class and its number. -/
theorem Token.isSpelled_register (r : Register) : (register r).IsSpelled := by
  obtain ⟨c, n⟩ := r
  obtain ⟨hne, hdigits, hlength, hvalue⟩ := toDigits_spec n
  have hword : Register.ofWord? (c.letter :: Nat.toDigits 10 n.toNat) = some ⟨c, n⟩ := by
    have hclass : RegisterClass.ofLetter? c.letter = some c :=
      RegisterClass.ofLetter?_eq_some_iff.2 rfl
    have hall : (Nat.toDigits 10 n.toNat).all Char.isDigit = true := List.all_eq_true.2 hdigits
    have hlt : n.toNat < UInt32.size := n.toNat_lt
    simp [Register.ofWord?, hclass, hall, hvalue, hlt, guard]
  have htoken : Word.token (c.letter :: Nat.toDigits 10 n.toNat) = register ⟨c, n⟩ := by
    rw [Word.token, hword]
  rw [← htoken]
  refine isSpelled_of_word (by cases c <;> rfl) (fun d hd => ?_) (Nat.lt_of_le_of_lt hlength ?_)
  · simp [Word.continuesWith, Char.isAlphanum, hdigits d hd]
  · decide

/-- The spelling of a keyword is a word that is not cut off, and is looked up as this keyword. -/
theorem Keyword.spelling_spec (k : Keyword) :
    k.spelling.head?.any Word.startsWith = true ∧ k.spelling.all Word.continuesWith = true ∧
      k.spelling.length ≤ maxTokenLength ∧ Word.token k.spelling = .keyword k := by
  have hall : ∀ k ∈ all, k.spelling.head?.any Word.startsWith = true ∧
      k.spelling.all Word.continuesWith = true ∧ k.spelling.length ≤ maxTokenLength ∧
        Word.token k.spelling = .keyword k := by
    decide +kernel
  exact hall k k.mem_all

/-- Every keyword can be written. -/
theorem Token.isSpelled_keyword (k : Keyword) : (keyword k).IsSpelled := by
  obtain ⟨hstart, hcontinues, hlength, htoken⟩ := k.spelling_spec
  rw [← htoken]
  cases hk : k.spelling with
  | nil =>
      rw [hk] at hstart
      cases hstart
  | cons c cs =>
      rw [hk] at hstart hcontinues hlength
      have hcs : ∀ d ∈ cs, Word.continuesWith d = true := fun d hd =>
        List.all_eq_true.1 hcontinues d (List.mem_cons_of_mem c hd)
      exact isSpelled_of_word hstart hcs hlength

/-! ## Sources -/

/-- The texts of tokens with spaces between them are read as the tokens. -/
theorem exists_text_of_isSpelled {ts : List Token} (h : ∀ t ∈ ts, t.IsSpelled) :
    ∃ cs, '\x00' ∉ cs ∧ ∀ base offset, (lexemesFrom base offset cs).map Lexeme.token = ts := by
  induction ts with
  | nil => exact ⟨[], List.not_mem_nil, fun base offset => by rw [lexemesFrom, List.map_nil]⟩
  | cons t ts ih =>
      obtain ⟨⟨text, hnul, htext⟩, hts⟩ := List.forall_mem_cons.1 h
      obtain ⟨cs, hnul', hcs⟩ := ih hts
      refine ⟨text ++ ' ' :: cs, by simp [hnul, hnul'], fun base offset => ?_⟩
      have hspace : ∀ c ∈ (' ' :: cs).head?, isDelimiter c = true := by simp [isDelimiter]
      rw [lexemesFrom_append base offset text hspace, List.map_append, htext, lexemesFrom_space,
        hcs]
      rfl

/-- Tokens that can be written are those of a source, wherever it is loaded. -/
theorem exists_source_of_isSpelled {ts : List Token} (h : ∀ t ∈ ts, t.IsSpelled) :
    ∃ source : String, ∀ base,
      (TokenStream.ofSource source base).lexemes.map Lexeme.token = ts := by
  obtain ⟨cs, hnul, hcs⟩ := exists_text_of_isSpelled h
  refine ⟨String.ofList cs, fun base => ?_⟩
  have htext : readableText (String.ofList cs) = cs := by
    rw [readableText_eq_toList (by rwa [String.toList_ofList]), String.toList_ofList]
  rw [TokenStream.ofSource, htext]
  exact hcs base 0

end RootSignature
