import RootSignature.Proofs.Grammar.Separated
import RootSignature.Proofs.Token.Lookahead

/-!
# Spaces between tokens

Spaces keep apart what would be read as one token otherwise. If the tokens of a text are known, and
punctuation marks stand between its literals, registers and keywords, then its spaces do not count:
the text without them has the same tokens (`tokens_filter_spaces`). For behind such a token there is
a delimiter or the end of the text, with spaces and without (`isDelimiter_of_tiles`).

A text of known tokens consists of ASCII characters (`toNat_lt_of_mem`).
-/

namespace RootSignature

/-! ## Known tokens -/

/-- A numeral that means something is a value. -/
theorem Numeral.isValue_of_token_ne_unknown {n : Numeral} (h : n.token ≠ .unknown) :
    n.token.isValue = true := by
  revert h
  unfold token integerToken
  cases Binary32.ofDecimal? n.decimal <;> (repeat' split) <;> simp [Token.isValue]

/-- A word that means something is a value. -/
theorem Word.isValue_of_token_ne_unknown {word : List Char} (h : token word ≠ .unknown) :
    (token word).isValue = true := by
  revert h
  unfold token
  cases Register.ofWord? word <;> cases Keyword.ofWord? word <;> simp [Token.isValue]

/-- A known token that is no value is a punctuation mark. -/
theorem FirstToken.punctuation_of_not_isValue {c : Char} {cs text rest : List Char} {token : Token}
    (h : scan c cs = ⟨token, text, rest⟩) (hknown : token ≠ .unknown)
    (hvalue : token.isValue = false) : Token.ofPunctuation? c = some token ∧ text = [c] := by
  unfold scan at h
  split at h
  · next mark hmark =>
      obtain ⟨rfl, rfl, -⟩ := FirstToken.mk.inj h
      exact ⟨hmark, rfl⟩
  · split at h
    · obtain ⟨rfl, -, -⟩ := FirstToken.mk.inj h
      cases (Numeral.isValue_of_token_ne_unknown hknown).symm.trans hvalue
    · split at h
      · obtain ⟨rfl, -, -⟩ := FirstToken.mk.inj h
        cases (Word.isValue_of_token_ne_unknown hknown).symm.trans hvalue
      · obtain ⟨rfl, -, -⟩ := FirstToken.mk.inj h
        exact absurd rfl hknown

/-- The text of such a token is the punctuation mark. -/
theorem exists_punctuation_of_mem {base : Location} {offset : Nat} {cs : List Char} {l : Lexeme}
    (hl : l ∈ lexemesFrom base offset cs) (hknown : l.token ≠ .unknown)
    (hvalue : l.token.isValue = false) :
    ∃ c, (Token.ofPunctuation? c).isSome ∧ l.text.toList = [c] := by
  obtain ⟨c, cs', -, htoken, htext⟩ := exists_scan_of_mem hl
  obtain ⟨hmark, hc⟩ := FirstToken.punctuation_of_not_isValue rfl (htoken ▸ hknown)
    (htoken ▸ hvalue)
  exact ⟨c, by rw [hmark, Option.isSome_some], htext.trans hc⟩

/-! ## ASCII -/

/-- Letters and digits are ASCII. -/
theorem toNat_lt_of_isAlphanum {c : Char} (h : c.isAlphanum = true) : c.toNat < 128 := by
  rcases Bool.or_eq_true_iff.1 h with halpha | hdigit
  · rcases Bool.or_eq_true_iff.1 halpha with hupper | hlower
    · have hle : c.toNat ≤ 90 := UInt32.le_iff_toNat_le.1 (of_decide_eq_true hupper).2
      omega
    · have hle : c.toNat ≤ 122 :=
        UInt32.le_iff_toNat_le.1 (of_decide_eq_true (Bool.and_eq_true_iff.1 hlower).2)
      omega
  · have hle : c.toNat ≤ 57 :=
      UInt32.le_iff_toNat_le.1 (of_decide_eq_true (Bool.and_eq_true_iff.1 hdigit).2)
    omega

/-- Words are ASCII. -/
theorem Word.toNat_lt_of_continuesWith {c : Char} (h : continuesWith c = true) :
    c.toNat < 128 := by
  rcases Bool.or_eq_true_iff.1 h with h | h
  · exact toNat_lt_of_isAlphanum h
  · obtain rfl : c = '_' := by simpa using h
    decide

theorem Numeral.toNat_lt_of_isPart {c : Char} (h : isPart c = true) : c.toNat < 128 := by
  simp only [isPart, startsWith, Significand.isSign, Exponent.isMark, isSuffix, Bool.or_eq_true,
    decide_eq_true_eq] at h
  rcases h with (((hdigit | rfl | rfl) | rfl) | rfl | rfl) | rfl | rfl
  · exact toNat_lt_of_isAlphanum (by simp [Char.isAlphanum, hdigit])
  all_goals decide

theorem toNat_lt_of_isDelimiter {c : Char} (h : isDelimiter c = true) : c.toNat < 128 := by
  rcases isDelimiter_iff.1 h with rfl | rfl | rfl | rfl | rfl | rfl <;> decide

/-- A token that means something is ASCII. -/
theorem FirstToken.toNat_lt_of_mem_text {c d : Char} {cs : List Char}
    (hknown : (scan c cs).token ≠ .unknown) (hd : d ∈ (scan c cs).text) : d.toNat < 128 := by
  revert hknown hd
  unfold scan
  split
  · next mark hmark =>
      intro _ hd
      rw [List.mem_singleton.1 hd]
      exact toNat_lt_of_isDelimiter (by simp [isDelimiter, hmark])
  · split
    · exact fun _ hd => Numeral.toNat_lt_of_isPart (Numeral.isPart_of_mem hd)
    · split
      · next hstart =>
          exact fun _ hd => Word.toNat_lt_of_continuesWith (Word.continuesWith_of_mem hstart hd)
      · exact fun hknown => absurd rfl hknown

/-- A text of known tokens consists of ASCII characters. -/
theorem toNat_lt_of_mem {base : Location} {offset : Nat} {cs : List Char}
    (hknown : ∀ l ∈ lexemesFrom base offset cs, l.token ≠ .unknown) {c : Char} (hc : c ∈ cs) :
    c.toNat < 128 := by
  fun_induction lexemesFrom base offset cs with
  | case1 => cases hc
  | case2 offset cs ih =>
      rcases List.mem_cons.1 hc with rfl | hc
      · decide
      · exact ih hknown hc
  | case3 offset d cs hd first ih =>
      have htext : first.text ++ first.rest = d :: cs := FirstToken.text_append_rest d cs
      rw [← htext] at hc
      rcases List.mem_append.1 hc with hc | hc
      · exact FirstToken.toNat_lt_of_mem_text (hknown _ (List.mem_cons_self ..)) hc
      · exact ih (fun l hl => hknown l (List.mem_cons_of_mem _ hl)) hc

/-! ## What stands behind a token -/

/-- A text whose first token is a punctuation mark starts with a delimiter, and so it does without
its spaces. -/
theorem isDelimiter_of_tiles {base : Location} {offset : Nat} {cs : List Char} {ls : List Lexeme}
    (h : Tiles base offset cs ls)
    (hmark : ∀ l ∈ ls.head?, ∃ c, (Token.ofPunctuation? c).isSome ∧ l.text.toList = [c]) :
    (∀ c ∈ cs.head?, isDelimiter c = true) ∧
      ∀ c ∈ (cs.filter (· ≠ ' ')).head?, isDelimiter c = true := by
  have hfilter : ∀ c ∈ (cs.filter (· ≠ ' ')).head?, isDelimiter c = true := by
    cases h with
    | spaces n => simp
    | @lexeme _ n l cs ls =>
        obtain ⟨mark, hmark, htext⟩ := hmark l rfl
        have hspace : mark ≠ ' ' := by
          rintro rfl
          cases hmark
        simp [htext, hspace, isDelimiter, hmark]
  refine ⟨fun c hc => ?_, hfilter⟩
  by_cases hspace : c = ' '
  · rw [hspace]
    decide
  · refine hfilter c ?_
    cases cs with
    | nil => cases hc
    | cons d cs =>
        obtain rfl : d = c := by simpa using hc
        simp [hspace]

/-- Behind a value there is a punctuation mark. -/
theorem punctuation_behind_value {base : Location} {offset : Nat} {cs : List Char} {l : Lexeme}
    {ls : List Lexeme} (hls : ls ⊆ lexemesFrom base offset cs)
    (h : Separated ((l :: ls).map Lexeme.token)) (hvalue : l.token.isValue = true) :
    ∀ m ∈ ls.head?, ∃ c, (Token.ofPunctuation? c).isSome ∧ m.text.toList = [c] := by
  intro m hm
  rw [List.map_cons] at h
  obtain ⟨hknown, hmark⟩ := h.behind_value hvalue m.token (by
    rw [List.head?_map]
    exact Option.mem_map_of_mem _ hm)
  exact exists_punctuation_of_mem (hls (List.mem_of_mem_head? hm)) hknown hmark

/-- Behind a value in a text there is a delimiter, or nothing. -/
theorem isDelimiter_behind_value {base : Location} {offset offset' : Nat} {cs after : List Char}
    {front back : List Lexeme} {l : Lexeme} (hls : lexemesFrom base offset cs = front ++ l :: back)
    (h : Separated ((lexemesFrom base offset cs).map Lexeme.token))
    (hback : Tiles base offset' after back) (hvalue : l.token.isValue = true) :
    ∀ c ∈ after.head?, isDelimiter c = true := by
  have hsubset : back ⊆ lexemesFrom base offset cs := by
    intro m hm
    rw [hls]
    exact List.mem_append_right front (List.mem_cons_of_mem l hm)
  rw [hls, List.map_append] at h
  exact (isDelimiter_of_tiles hback (punctuation_behind_value hsubset h.right hvalue)).1

/-- The tokens of a text are the same without its spaces, if a punctuation mark stands between any
two values. -/
theorem tokens_filter_spaces (base : Location) (offset offset' : Nat) (cs : List Char)
    (h : Separated ((lexemesFrom base offset cs).map Lexeme.token)) :
    (lexemesFrom base offset' (cs.filter (· ≠ ' '))).map Lexeme.token =
      (lexemesFrom base offset cs).map Lexeme.token := by
  fun_induction lexemesFrom base offset cs generalizing offset' with
  | case1 => rw [List.filter_nil, lexemesFrom]
  | case2 offset cs ih => exact ih offset' h
  | case3 offset c cs hc first ih =>
      obtain ⟨token, text, rest, hscan, rfl⟩ := FirstToken.exists_scan_eq c cs
      have hfirst : first = ⟨token, c :: text, rest⟩ := hscan
      clear_value first
      subst hfirst
      have hnospace : ' ' ∉ c :: text := by
        have hspace := FirstToken.space_notMem_text hc (text ++ rest)
        rwa [hscan] at hspace
      have hfilter : (c :: (text ++ rest)).filter (· ≠ ' ') =
          c :: (text ++ rest.filter (· ≠ ' ')) := by
        have htext : (c :: text).filter (· ≠ ' ') = c :: text := by
          rw [List.filter_eq_self]
          intro d hd
          exact decide_eq_true (fun hspace => hnospace (hspace ▸ hd))
        rw [← List.cons_append, List.filter_append, htext, List.cons_append]
      have hscan' : FirstToken.scan c (text ++ rest.filter (· ≠ ' ')) =
          ⟨token, c :: text, rest.filter (· ≠ ' ')⟩ := by
        have hknown : token ≠ .unknown := h.known token (List.mem_cons_self ..)
        cases hvalue : token.isValue with
        | true =>
            have hrest := punctuation_behind_value (List.Subset.refl _) h hvalue
            exact FirstToken.scan_eq_of_mayFollow hscan
              (mayFollow_of_delimiter rest (isDelimiter_of_tiles (lexemesFrom_tiles ..) hrest).2)
        | false =>
            obtain ⟨hmark, htext⟩ := FirstToken.punctuation_of_not_isValue hscan hknown hvalue
            obtain rfl := (List.cons_eq_cons.1 htext).2
            exact FirstToken.scan_punctuation hmark _
      rw [hfilter, lexemesFrom_of_scan base offset' hc hscan', List.map_cons, List.map_cons,
        ih _ h.tail]

end RootSignature
