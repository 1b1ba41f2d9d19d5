import RootSignature.Proofs.Token.Tiling

/-!
# The characters of tokens

A numeral consists of digits, signs, points and a few letters, a word of letters, digits and
underscores, and every other token of one character (`FirstToken.text_eq_of_mem`). So a token does
not reach over the end of a line: a newline is a token of its own (`text_eq_of_newline_mem`). Nor
does it reach over a space (`FirstToken.space_notMem_text`).
-/

namespace RootSignature

/-! ## Numerals -/

/-- A character is taken only if it is of the kind that is asked for. -/
theorem of_mem_takeIf {p : Char → Bool} {cs : List Char} {c : Char}
    (h : c ∈ (takeIf p cs).1.toList) : p c = true := by
  cases cs with
  | nil => cases h
  | cons d cs =>
      by_cases hd : p d = true
      · have hc : c = d := by simpa [takeIf, hd] using h
        rw [hc, hd]
      · simp [takeIf, hd] at h

/-- Only digits are taken as digits. -/
theorem isDigit_of_mem_takeDigits {room : Nat} {cs : List Char} {c : Char}
    (h : c ∈ (takeDigits room cs).1) : c.isDigit = true :=
  List.all_eq_true.1 List.all_takeWhile c h

/-- A significand consists of the characters that a numeral can start with. -/
theorem Significand.startsWith_of_mem {cs : List Char} {c : Char}
    (h : c ∈ (scan cs).1.toList) : Numeral.startsWith c = true := by
  have hpart (sign : Option Char) (whole : List Char) (fraction : Option (List Char))
      (hsign : ∀ c ∈ sign.toList, isSign c = true) (hwhole : ∀ c ∈ whole, c.isDigit = true)
      (hfraction : ∀ c ∈ fraction.getD [], c.isDigit = true)
      (hmem : c ∈ (⟨sign, whole, fraction⟩ : Significand).toList) :
      Numeral.startsWith c = true := by
    unfold Numeral.startsWith
    rcases List.mem_append.1 hmem with hmem | hmem
    · rcases List.mem_append.1 hmem with hmem | hmem
      · rw [hsign c hmem, Bool.or_true, Bool.true_or]
      · rw [hwhole c hmem, Bool.true_or, Bool.true_or]
    · cases fraction with
      | none => cases hmem
      | some fraction =>
          rcases List.mem_cons.1 hmem with rfl | hmem
          · decide
          · rw [hfraction c hmem, Bool.true_or, Bool.true_or]
  revert h
  unfold scan
  dsimp only
  split
  · exact hpart _ _ none (fun c hc => of_mem_takeIf hc)
      (fun c hc => isDigit_of_mem_takeDigits hc) (fun c hc => by cases hc)
  · exact hpart _ _ (some _) (fun c hc => of_mem_takeIf hc)
      (fun c hc => isDigit_of_mem_takeDigits hc) (fun c hc => isDigit_of_mem_takeDigits hc)

/-- A character that a numeral can have. -/
def Numeral.isPart (c : Char) : Bool :=
  startsWith c || Exponent.isMark c || isSuffix c

/-- An exponent is written with characters of numerals. -/
theorem Exponent.isPart_of_mem {before : Nat} {cs : List Char} {c : Char}
    (h : c ∈ (scan? before cs).1.elim [] toList) : Numeral.isPart c = true := by
  revert h
  unfold scan?
  split
  · intro h
    cases h
  · next mark afterMark hmark =>
      intro h
      unfold Numeral.isPart
      rcases List.mem_cons.1 h with rfl | h
      · have hc : c ∈ (takeIf isMark cs).1.toList := by
          rw [hmark]
          exact List.mem_singleton.2 rfl
        rw [of_mem_takeIf hc, Bool.or_true, Bool.true_or]
      · have hstart : Numeral.startsWith c = true := by
          unfold Numeral.startsWith
          rcases List.mem_append.1 h with h | h
          · rw [of_mem_takeIf h, Bool.or_true, Bool.true_or]
          · rw [isDigit_of_mem_takeDigits h, Bool.true_or, Bool.true_or]
        rw [hstart, Bool.true_or, Bool.true_or]

/-- A numeral consists of digits, signs, points, marks of exponents and suffixes. -/
theorem Numeral.isPart_of_mem {cs : List Char} {c : Char} (h : c ∈ (scan cs).1.toList) :
    isPart c = true := by
  have hsignificand (hmem : c ∈ (Significand.scan cs).1.toList) : isPart c = true := by
    rw [isPart, Significand.startsWith_of_mem hmem, Bool.true_or, Bool.true_or]
  revert h
  unfold scan
  dsimp only
  split
  · intro h
    exact hsignificand (by simpa [toList] using h)
  · split
    · intro h
      rcases List.mem_append.1 h with h | h
      · rcases List.mem_append.1 h with h | h
        · exact hsignificand h
        · exact Exponent.isPart_of_mem h
      · cases h
    · intro h
      rcases List.mem_append.1 h with h | h
      · rcases List.mem_append.1 h with h | h
        · exact hsignificand h
        · exact Exponent.isPart_of_mem h
      · rw [isPart, of_mem_takeIf h, Bool.or_true]

/-! ## Words -/

/-- A word consists of letters, digits and underscores. -/
theorem Word.continuesWith_of_mem {c d : Char} {cs : List Char} (hc : startsWith c = true)
    (h : d ∈ (scan c cs).1) : continuesWith d = true := by
  rcases List.mem_cons.1 h with rfl | h
  · unfold startsWith at hc
    unfold continuesWith Char.isAlphanum
    rcases Bool.or_eq_true_iff.1 hc with hc | hc
    · rw [hc, Bool.true_or, Bool.true_or]
    · rw [hc, Bool.or_true]
  · exact List.all_eq_true.1 List.all_takeWhile d h

/-! ## Tokens -/

/-- A character that neither numerals nor words have is a token of its own. -/
theorem FirstToken.text_eq_of_mem {c d : Char} {cs : List Char} (hnumeral : ¬ Numeral.isPart d)
    (hword : ¬ Word.continuesWith d) (h : d ∈ (scan c cs).text) : (scan c cs).text = [d] := by
  revert h
  unfold scan
  split
  · intro h
    rw [List.mem_singleton.1 h]
  · split
    · intro h
      exact absurd (Numeral.isPart_of_mem h) hnumeral
    · split
      · next hstart =>
          intro h
          exact absurd (Word.continuesWith_of_mem hstart h) hword
      · intro h
        rw [List.mem_singleton.1 h]

/-- A token that does not start with a space has none. -/
theorem FirstToken.space_notMem_text {c : Char} (hc : c ≠ ' ') (cs : List Char) :
    ' ' ∉ (scan c cs).text := by
  intro h
  have happend := text_append_rest c cs
  rw [text_eq_of_mem (by decide) (by decide) h] at happend
  exact hc (List.cons_eq_cons.1 happend).1.symm

/-- Every lexeme has been cut off some text as its first token. -/
theorem exists_scan_of_mem {base : Location} {offset : Nat} {cs : List Char} {l : Lexeme}
    (hl : l ∈ lexemesFrom base offset cs) :
    ∃ c cs', c ≠ ' ' ∧ l.token = (FirstToken.scan c cs').token ∧
      l.text.toList = (FirstToken.scan c cs').text := by
  fun_induction lexemesFrom base offset cs with
  | case1 => cases hl
  | case2 offset cs ih => exact ih hl
  | case3 offset c cs hc first ih =>
      rcases List.mem_cons.1 hl with rfl | hl
      · exact ⟨c, cs, hc, rfl, String.toList_ofList⟩
      · exact ih hl

/-- A lexeme with a newline in its text is a newline. -/
theorem text_eq_of_newline_mem {base : Location} {offset : Nat} {cs : List Char} {l : Lexeme}
    (hl : l ∈ lexemesFrom base offset cs) (h : '\n' ∈ l.text.toList) : l.text.toList = ['\n'] := by
  obtain ⟨c, cs', -, -, htext⟩ := exists_scan_of_mem hl
  rw [htext] at h ⊢
  exact FirstToken.text_eq_of_mem (by decide) (by decide) h

end RootSignature
