import RootSignature.Proofs.Token.Characters

/-!
# Tokens look one character ahead

Where a token ends is decided by the one character behind it, and no token goes on with a space or
with a punctuation mark. So a token is cut off in the same way whatever stands behind it, as long as
that begins in the same way or with a delimiter (`FirstToken.scan_eq_of_mayFollow`): each part of a
numeral looks ahead alike, and so does a word.

It follows that a text can be cut into lexemes at its delimiters (`lexemesFrom_append`): what stands
before a delimiter does not count for the lexemes behind it, and the other way round. And it follows
that the text of a lexeme is enough to tell its token (`lexemesFrom_text`).
-/

namespace RootSignature

/-- A character that no token goes on with: a space or a punctuation mark. -/
def isDelimiter (c : Char) : Bool :=
  c = ' ' || (Token.ofPunctuation? c).isSome

/-- The delimiters one by one. -/
theorem isDelimiter_iff {c : Char} :
    isDelimiter c = true ↔ c = ' ' ∨ c = ',' ∨ c = '(' ∨ c = ')' ∨ c = '=' ∨ c = '|' := by
  unfold isDelimiter Token.ofPunctuation?
  split <;> simp_all

/-- A text may stand behind a token in place of another text: it is empty, or it begins with a
delimiter or like the other text. -/
def MayFollow (rest rest' : List Char) : Prop :=
  ∀ c ∈ rest'.head?, isDelimiter c = true ∨ c ∈ rest.head?

/-- A text that begins with a delimiter, or is empty, may stand behind any token. -/
theorem mayFollow_of_delimiter (rest : List Char) {rest' : List Char}
    (h : ∀ c ∈ rest'.head?, isDelimiter c = true) : MayFollow rest rest' :=
  fun c hc => .inl (h c hc)

/-- More text behind a text changes its start only if there was none, and then to a delimiter. -/
theorem mayFollow_append (rest : List Char) {tail : List Char}
    (h : ∀ c ∈ tail.head?, isDelimiter c = true) : MayFollow rest (rest ++ tail) := by
  cases rest with
  | nil => exact mayFollow_of_delimiter [] h
  | cons c rest => exact fun _ hc => .inr hc

/-- What stands before both texts makes their starts the same. -/
theorem MayFollow.append_left {rest rest' : List Char} (h : MayFollow rest rest')
    (cs : List Char) : MayFollow (cs ++ rest) (cs ++ rest') := by
  cases cs with
  | nil => exact h
  | cons c cs => exact fun _ hc => .inr hc

/-! ## Taking characters off a text -/

section
variable {p : Char → Bool} {cs rest rest' : List Char}

theorem takeIf_of_pos {c : Char} (h : p c = true) (cs : List Char) :
    takeIf p (c :: cs) = (some c, cs) := if_pos h

/-- Whether a character is taken depends on nothing behind it but the next character. -/
theorem takeIf_eq_of_mayFollow (hp : ∀ c, isDelimiter c = true → p c = false) {o : Option Char}
    (h : takeIf p cs = (o, rest)) (hrest : MayFollow rest rest') :
    takeIf p (o.toList ++ rest') = (o, rest') := by
  cases cs with
  | nil =>
      obtain ⟨rfl, rfl⟩ := Prod.mk.inj h
      cases rest' with
      | nil => rfl
      | cons c rest' =>
          have hc : p c = false := hp c ((hrest c rfl).resolve_right (by simp))
          simp [takeIf, hc]
  | cons d cs =>
      by_cases hd : p d = true
      · obtain ⟨rfl, rfl⟩ : some d = o ∧ cs = rest := by simpa [takeIf, hd] using h
        simp [takeIf, hd]
      · obtain ⟨rfl, rfl⟩ : none = o ∧ d :: cs = rest := by simpa [takeIf, hd] using h
        cases rest' with
        | nil => rfl
        | cons c rest' =>
            have hc : p c = false := by
              rcases hrest c rfl with hc | hc
              · exact hp c hc
              · obtain rfl : d = c := by simpa using hc
                simpa using hd
            simp [takeIf, hc]

/-- A run of characters ends where the room ends, or before a character that it does not go on
with. -/
theorem takeWhile_take_eq_of_mayFollow (hp : ∀ c, isDelimiter c = true → p c = false) {room : Nat}
    (hrest : MayFollow (cs.drop ((cs.take room).takeWhile p).length) rest') :
    (((cs.take room).takeWhile p ++ rest').take room).takeWhile p = (cs.take room).takeWhile p := by
  -- Where no character is taken, none is taken of what may follow.
  have hnil (room : Nat) (cs : List Char) (hcs : ∀ c ∈ cs.head?, p c = false)
      (h : MayFollow cs rest') : (rest'.take room).takeWhile p = [] := by
    cases rest' with
    | nil => simp
    | cons c rest' =>
        have hc : p c = false := (h c rfl).elim (hp c) (hcs c)
        cases room <;> simp [hc]
  induction cs generalizing room with
  | nil => simpa using hnil room [] (by simp) (by simpa using hrest)
  | cons c cs ih =>
      cases room with
      | zero => simp
      | succ room =>
          by_cases hc : p c = true
          · simp only [List.take_succ_cons, List.takeWhile_cons_of_pos hc, List.length_cons,
              List.drop_succ_cons, List.cons_append] at hrest ⊢
            rw [ih hrest]
          · simp only [List.take_succ_cons, List.takeWhile_cons_of_neg hc, List.length_nil,
              List.drop_zero, List.nil_append] at hrest ⊢
            exact hnil (room + 1) (c :: cs) (by simpa using hc) hrest

theorem isDigit_of_isDelimiter (c : Char) (h : isDelimiter c = true) : c.isDigit = false := by
  rcases isDelimiter_iff.1 h with rfl | rfl | rfl | rfl | rfl | rfl <;> rfl

theorem isSign_of_isDelimiter (c : Char) (h : isDelimiter c = true) :
    Significand.isSign c = false := by
  rcases isDelimiter_iff.1 h with rfl | rfl | rfl | rfl | rfl | rfl <;> rfl

/-- How many digits are taken depends on nothing behind them but the next character. -/
theorem takeDigits_eq_of_mayFollow {room : Nat} {ds : List Char}
    (h : takeDigits room cs = (ds, rest)) (hrest : MayFollow rest rest') :
    takeDigits room (ds ++ rest') = (ds, rest') := by
  obtain ⟨rfl, rfl⟩ := Prod.mk.inj h
  have hdigits := takeWhile_take_eq_of_mayFollow isDigit_of_isDelimiter hrest
  simp only [takeDigits, hdigits, List.drop_left]

/-! ## Numerals and words -/

/-- Where a significand ends depends on nothing behind it but the next character. -/
theorem Significand.scan_eq_of_mayFollow {s : Significand} (h : scan cs = (s, rest))
    (hrest : MayFollow rest rest') : scan (s.toList ++ rest') = (s, rest') := by
  have hpoint (c : Char) (hc : isDelimiter c = true) : decide (c = '.') = false := by
    rcases isDelimiter_iff.1 hc with rfl | rfl | rfl | rfl | rfl | rfl <;> rfl
  unfold scan at h
  generalize hsign : takeIf isSign cs = sign at h
  obtain ⟨sign, afterSign⟩ := sign
  dsimp only at h
  generalize hwhole : takeDigits (maxTokenLength - sign.toList.length) afterSign = whole at h
  obtain ⟨whole, afterWhole⟩ := whole
  dsimp only at h
  have hafterSign : whole ++ afterWhole = afterSign := by
    have happend := append_takeDigits (maxTokenLength - sign.toList.length) afterSign
    rwa [hwhole] at happend
  -- The parts are read again one by one, the last of them before what may follow.
  have hagain (after' : List Char) (hafter : MayFollow afterWhole after') :
      takeIf isSign (sign.toList ++ (whole ++ after')) = (sign, whole ++ after') ∧
        takeDigits (maxTokenLength - sign.toList.length) (whole ++ after') = (whole, after') :=
    ⟨takeIf_eq_of_mayFollow isSign_of_isDelimiter hsign (hafterSign ▸ hafter.append_left whole),
      takeDigits_eq_of_mayFollow hwhole hafter⟩
  generalize hdot : takeIf (· = '.') afterWhole = dot at h
  obtain ⟨dot, afterDot⟩ := dot
  have hafterWhole : dot.toList ++ afterDot = afterWhole := by
    have happend := toList_append_takeIf (· = '.') afterWhole
    rwa [hdot] at happend
  cases dot with
  | none =>
      obtain ⟨rfl, rfl⟩ := Prod.mk.inj h
      obtain rfl : afterDot = afterWhole := hafterWhole
      obtain ⟨hsign', hwhole'⟩ := hagain rest' hrest
      have hdot' : takeIf (· = '.') rest' = (none, rest') :=
        takeIf_eq_of_mayFollow hpoint hdot hrest
      simp [toList, scan, hsign', hwhole', hdot']
  | some c =>
      have hc : c = '.' := by
        have hmem : c ∈ (takeIf (· = '.') afterWhole).1.toList := by
          rw [hdot]
          exact List.mem_singleton.2 rfl
        simpa using of_mem_takeIf hmem
      dsimp only at h
      generalize hfraction : takeDigits
        (maxTokenLength - (sign.toList.length + whole.length + 1)) afterDot = fraction at h
      obtain ⟨fraction, afterFraction⟩ := fraction
      obtain ⟨rfl, rfl⟩ := Prod.mk.inj h
      obtain ⟨hsign', hwhole'⟩ := hagain ('.' :: (fraction ++ rest')) (by
        rw [← hafterWhole, hc]
        exact fun _ hmem => .inr hmem)
      have hfraction' := takeDigits_eq_of_mayFollow hfraction hrest
      have hdot' : takeIf (· = '.') ('.' :: (fraction ++ rest')) = (some '.', fraction ++ rest') :=
        takeIf_of_pos rfl _
      simp [toList, scan, hsign', hwhole', hdot', hfraction']

/-- Where an exponent ends depends on nothing behind it but the next character. -/
theorem Exponent.scan?_eq_of_mayFollow {before : Nat} {e : Option Exponent}
    (h : scan? before cs = (e, rest)) (hrest : MayFollow rest rest') :
    scan? before (e.elim [] toList ++ rest') = (e, rest') := by
  have hmarkless (c : Char) (hc : isDelimiter c = true) : isMark c = false := by
    rcases isDelimiter_iff.1 hc with rfl | rfl | rfl | rfl | rfl | rfl <;> rfl
  unfold scan? at h
  generalize hmark : takeIf isMark cs = mark at h
  obtain ⟨mark, afterMark⟩ := mark
  cases mark with
  | none =>
      obtain ⟨rfl, rfl⟩ := Prod.mk.inj h
      have hmark' : takeIf isMark rest' = (none, rest') :=
        takeIf_eq_of_mayFollow hmarkless hmark hrest
      simp [scan?, hmark']
  | some mark =>
      dsimp only at h
      generalize hsign : takeIf Significand.isSign afterMark = sign at h
      obtain ⟨sign, afterSign⟩ := sign
      dsimp only at h
      generalize hdigits : takeDigits
        (maxTokenLength - (before + 1 + sign.toList.length)) afterSign = digits at h
      obtain ⟨digits, afterDigits⟩ := digits
      obtain ⟨rfl, rfl⟩ := Prod.mk.inj h
      have hafterSign : digits ++ afterDigits = afterSign := by
        have happend := append_takeDigits
          (maxTokenLength - (before + 1 + sign.toList.length)) afterSign
        rwa [hdigits] at happend
      have hmem : mark ∈ (takeIf isMark cs).1.toList := by
        rw [hmark]
        exact List.mem_singleton.2 rfl
      have hmark' : isMark mark = true := of_mem_takeIf hmem
      have hsign' := takeIf_eq_of_mayFollow isSign_of_isDelimiter hsign
        (hafterSign ▸ hrest.append_left digits)
      have hdigits' := takeDigits_eq_of_mayFollow hdigits hrest
      simp [scan?, toList, takeIf_of_pos hmark', hsign', hdigits']

/-- A numeral is read in the same way before any text that may follow it. -/
theorem Numeral.scan_eq_of_mayFollow {n : Numeral} (h : scan cs = (n, rest))
    (hrest : MayFollow rest rest') : scan (n.toList ++ rest') = (n, rest') := by
  have hsuffixless (c : Char) (hc : isDelimiter c = true) : isSuffix c = false := by
    rcases isDelimiter_iff.1 hc with rfl | rfl | rfl | rfl | rfl | rfl <;> rfl
  unfold scan at h
  generalize hsignificand : Significand.scan cs = significand at h
  obtain ⟨significand, afterSignificand⟩ := significand
  dsimp only at h
  split at h
  · next hempty =>
      obtain ⟨rfl, rfl⟩ := Prod.mk.inj h
      have hsignificand' := Significand.scan_eq_of_mayFollow hsignificand hrest
      simp [scan, toList, hsignificand', hempty]
  · next hdigits =>
      generalize hexponent : Exponent.scan? significand.toList.length afterSignificand = exponent
        at h
      obtain ⟨exponent, afterExponent⟩ := exponent
      dsimp only at h
      have hafter : exponent.elim [] Exponent.toList ++ afterExponent = afterSignificand := by
        have happend := Exponent.toList_append_scan? significand.toList.length afterSignificand
        rwa [hexponent] at happend
      split at h
      · next hempty =>
          obtain ⟨rfl, rfl⟩ := Prod.mk.inj h
          have hsignificand' := Significand.scan_eq_of_mayFollow hsignificand
            (hafter ▸ hrest.append_left (exponent.elim [] Exponent.toList))
          have hexponent' := Exponent.scan?_eq_of_mayFollow hexponent hrest
          simp [scan, toList, hsignificand', hdigits, hexponent', hempty]
      · next hwhole =>
          generalize hsuffix : takeIf isSuffix afterExponent = suffix at h
          obtain ⟨suffix, afterSuffix⟩ := suffix
          obtain ⟨rfl, rfl⟩ := Prod.mk.inj h
          have hafterExponent : suffix.toList ++ afterSuffix = afterExponent := by
            have happend := toList_append_takeIf isSuffix afterExponent
            rwa [hsuffix] at happend
          have hsuffix' := takeIf_eq_of_mayFollow hsuffixless hsuffix hrest
          have hexponent' := Exponent.scan?_eq_of_mayFollow hexponent
            (hafterExponent ▸ hrest.append_left suffix.toList)
          have hsignificand' := Significand.scan_eq_of_mayFollow hsignificand
            (hafter ▸ (hafterExponent ▸ hrest.append_left suffix.toList).append_left
              (exponent.elim [] Exponent.toList))
          simp [scan, toList, hsignificand', hdigits, hexponent', hwhole, hsuffix']

end

/-- A word is read in the same way before any text that may follow it. -/
theorem Word.scan_eq_of_mayFollow {c : Char} {cs tail rest rest' : List Char}
    (h : scan c cs = (c :: tail, rest)) (hrest : MayFollow rest rest') :
    scan c (tail ++ rest') = (c :: tail, rest') := by
  have hdelimiter (c : Char) (hc : isDelimiter c = true) : continuesWith c = false := by
    rcases isDelimiter_iff.1 hc with rfl | rfl | rfl | rfl | rfl | rfl <;> rfl
  obtain ⟨htail, rfl⟩ := Prod.mk.inj h
  obtain rfl := (List.cons_eq_cons.1 htail).2
  have htail' := takeWhile_take_eq_of_mayFollow hdelimiter hrest
  simp only [scan, htail', List.drop_left]

/-! ## Tokens -/

namespace FirstToken

/-- The first token has at least the first character. -/
theorem exists_scan_eq (c : Char) (cs : List Char) :
    ∃ token tail rest, scan c cs = ⟨token, c :: tail, rest⟩ ∧ cs = tail ++ rest := by
  have happend := text_append_rest c cs
  have hne := text_ne_nil c cs
  generalize scan c cs = first at happend hne ⊢
  obtain ⟨token, text, rest⟩ := first
  cases text with
  | nil => exact absurd rfl hne
  | cons d tail =>
      obtain ⟨rfl, rfl⟩ := List.cons_eq_cons.1 happend
      exact ⟨token, tail, rest, rfl, rfl⟩

/-- The first token is the same whatever may follow it. -/
theorem scan_eq_of_mayFollow {c : Char} {cs tail rest rest' : List Char} {token : Token}
    (h : scan c cs = ⟨token, c :: tail, rest⟩) (hrest : MayFollow rest rest') :
    scan c (tail ++ rest') = ⟨token, c :: tail, rest'⟩ := by
  unfold scan at h ⊢
  cases hmark : Token.ofPunctuation? c with
  | some mark =>
      rw [hmark] at h
      obtain ⟨rfl, htail, -⟩ := FirstToken.mk.inj h
      obtain rfl := (List.cons_eq_cons.1 htail).2
      rfl
  | none =>
      rw [hmark] at h
      dsimp only at h ⊢
      split at h
      · next hnumeral =>
          rw [if_pos hnumeral]
          generalize hscan : Numeral.scan (c :: cs) = numeral at h
          obtain ⟨numeral, afterNumeral⟩ := numeral
          obtain ⟨rfl, htext, rfl⟩ := FirstToken.mk.inj h
          have hscan' := Numeral.scan_eq_of_mayFollow hscan hrest
          rw [htext, List.cons_append] at hscan'
          rw [hscan']
          dsimp only
          rw [htext]
      · next hnumeral =>
          rw [if_neg hnumeral]
          split at h
          · next hword =>
              rw [if_pos hword]
              generalize hscan : Word.scan c cs = word at h
              obtain ⟨word, afterWord⟩ := word
              obtain ⟨rfl, rfl, rfl⟩ := FirstToken.mk.inj h
              rw [Word.scan_eq_of_mayFollow hscan hrest]
          · next hword =>
              rw [if_neg hword]
              obtain ⟨rfl, htail, -⟩ := FirstToken.mk.inj h
              obtain rfl := (List.cons_eq_cons.1 htail).2
              rfl

/-- A punctuation mark is a token of its own. -/
theorem scan_punctuation {c : Char} {token : Token}
    (h : Token.ofPunctuation? c = some token) (cs : List Char) : scan c cs = ⟨token, [c], cs⟩ := by
  unfold scan
  rw [h]

end FirstToken

/-! ## Texts -/

/-- A space is no lexeme, but moves those behind it. -/
theorem lexemesFrom_space (base : Location) (offset : Nat) (cs : List Char) :
    lexemesFrom base offset (' ' :: cs) = lexemesFrom base (offset + 1) cs := by
  rw [lexemesFrom, if_pos rfl]

/-- The lexemes of a text from its first token on. -/
theorem lexemesFrom_of_scan (base : Location) (offset : Nat) {c : Char}
    {cs text rest : List Char} {token : Token} (hc : c ≠ ' ')
    (h : FirstToken.scan c cs = ⟨token, text, rest⟩) :
    lexemesFrom base offset (c :: cs) =
      ⟨token, String.ofList text, base.offset offset⟩ ::
        lexemesFrom base (offset + byteLength text) rest := by
  rw [lexemesFrom, if_neg hc, h]

/-- A punctuation mark is a lexeme, whatever stands behind it. -/
theorem lexemesFrom_punctuation (base : Location) (offset : Nat) {c : Char} {token : Token}
    (h : Token.ofPunctuation? c = some token) (cs : List Char) :
    lexemesFrom base offset (c :: cs) =
      ⟨token, String.singleton c, base.offset offset⟩ ::
        lexemesFrom base (offset + c.utf8Size) cs := by
  have hc : c ≠ ' ' := by
    rintro rfl
    cases h
  exact lexemesFrom_of_scan base offset hc (FirstToken.scan_punctuation h cs)

/-- What stands before a delimiter and what goes on from it can be cut into lexemes apart. -/
theorem lexemesFrom_append (base : Location) (offset : Nat) (cs : List Char) {tail : List Char}
    (htail : ∀ c ∈ tail.head?, isDelimiter c = true) :
    lexemesFrom base offset (cs ++ tail) =
      lexemesFrom base offset cs ++ lexemesFrom base (offset + byteLength cs) tail := by
  induction hn : cs.length using Nat.strongRecOn generalizing offset cs with
  | ind n ih =>
      subst hn
      cases cs with
      | nil => simp [lexemesFrom]
      | cons c cs =>
          by_cases hc : c = ' '
          · subst hc
            have hsize : (' ' : Char).utf8Size = 1 := rfl
            rw [List.cons_append, lexemesFrom_space, lexemesFrom_space,
              ih cs.length (Nat.lt_succ_self _) _ cs rfl, byteLength_cons, hsize, Nat.add_assoc]
          · obtain ⟨token, text, rest, hscan, rfl⟩ := FirstToken.exists_scan_eq c cs
            have hscan' : FirstToken.scan c (text ++ (rest ++ tail)) =
                ⟨token, c :: text, rest ++ tail⟩ :=
              FirstToken.scan_eq_of_mayFollow hscan (mayFollow_append rest htail)
            have hlt : rest.length < (c :: (text ++ rest)).length := by
              simp only [List.length_cons, List.length_append]
              omega
            have hlength : offset + byteLength (c :: (text ++ rest)) =
                offset + byteLength (c :: text) + byteLength rest := by
              simp only [byteLength_cons, byteLength_append]
              omega
            rw [List.cons_append, List.append_assoc, lexemesFrom_of_scan base offset hc hscan,
              lexemesFrom_of_scan base offset hc hscan', ih _ hlt _ rest rfl, List.cons_append,
              hlength]

/-! ## Tokens alone -/

/-- The text of a lexeme, read by itself, is this lexeme and nothing more. -/
theorem lexemesFrom_text {base : Location} {offset : Nat} {cs : List Char} {l : Lexeme}
    (hl : l ∈ lexemesFrom base offset cs) (base' : Location) (offset' : Nat) :
    lexemesFrom base' offset' l.text.toList = [⟨l.token, l.text, base'.offset offset'⟩] := by
  obtain ⟨c, cs', hc, htoken, htext⟩ := exists_scan_of_mem hl
  obtain ⟨token, tail, rest, hscan, -⟩ := FirstToken.exists_scan_eq c cs'
  rw [hscan] at htoken htext
  dsimp only at htoken htext
  -- Whatever stood behind the token, nothing may stand there as well.
  have hnothing : MayFollow rest [] := mayFollow_of_delimiter rest (by simp)
  have hscan' := FirstToken.scan_eq_of_mayFollow hscan hnothing
  rw [List.append_nil] at hscan'
  rw [htext, lexemesFrom_of_scan base' offset' hc hscan', lexemesFrom, htoken, ← htext,
    String.ofList_toList]

/-- Lexemes of one text are of one token. -/
theorem token_eq_of_text_eq {base base' : Location} {offset offset' : Nat} {cs cs' : List Char}
    {l l' : Lexeme} (hl : l ∈ lexemesFrom base offset cs) (hl' : l' ∈ lexemesFrom base' offset' cs')
    (h : l.text = l'.text) : l.token = l'.token := by
  have halone := lexemesFrom_text hl .first 0
  rw [h, lexemesFrom_text hl' .first 0] at halone
  exact (Lexeme.mk.inj (List.cons_eq_cons.1 halone).1).1.symm

end RootSignature
