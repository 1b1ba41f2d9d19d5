import Mathlib.Data.Option.Basic
import RootSignature.Proofs.Token.Spelled

/-!
# Capitals and small letters

Capitals count only where a register is recognised. Everything else that the scanner asks of a
character has one answer for a letter and its capital (`IgnoresCase`), so a text in small letters is
cut at the same places (`FirstToken.scan_toLower`). A numeral has letters only where it does not
matter which of the two they are (`Numeral.token_toLower`), and a word that is a keyword in small
letters is this keyword and no register (`Word.token_toLower_eq_keyword_iff`).
-/

namespace RootSignature

/-! ## Letters -/

/-- What is asked of a character has one answer for a letter and its capital. -/
def IgnoresCase {α : Type} (f : Char → α) : Prop :=
  ∀ c, f c.toLower = f c

/-- A character is its own small letter, or one of the capitals. -/
theorem toLower_cases (c : Char) : c.toLower = c ∨ ∃ n < 26, c = Char.ofNat (65 + n) := by
  unfold Char.toLower
  split
  · next h =>
      obtain ⟨hge, hle⟩ : 65 ≤ c.toNat ∧ c.toNat ≤ 90 :=
        ⟨UInt32.le_iff_toNat_le.1 h.1, UInt32.le_iff_toNat_le.1 h.2⟩
      refine .inr ⟨c.toNat - 65, by omega, ?_⟩
      rw [Nat.add_sub_cancel' hge, Char.ofNat_toNat]
  · exact .inl rfl

/-- It is enough to ask about the capitals. -/
theorem ignoresCase_of_capitals {α : Type} {f : Char → α}
    (h : ∀ n < 26, f (Char.ofNat (65 + n)).toLower = f (Char.ofNat (65 + n))) : IgnoresCase f := by
  intro c
  rcases toLower_cases c with hc | ⟨n, hn, rfl⟩
  · rw [hc]
  · exact h n hn

/-- A condition that no capital satisfies tells that a character is its own small letter. -/
theorem toLower_eq_self {p : Char → Bool} (h : ∀ n < 26, p (Char.ofNat (65 + n)) = false) {c : Char}
    (hc : p c = true) : c.toLower = c := by
  rcases toLower_cases c with hlower | ⟨n, hn, rfl⟩
  · exact hlower
  · cases (h n hn).symm.trans hc

/-- A digit has no capital. -/
theorem toLower_of_isDigit {c : Char} (h : c.isDigit = true) : c.toLower = c :=
  toLower_eq_self (by decide) h

theorem map_toLower_of_isDigit {ds : List Char} (h : ∀ d ∈ ds, d.isDigit = true) :
    ds.map Char.toLower = ds :=
  (List.map_congr_left fun d hd => toLower_of_isDigit (h d hd)).trans (List.map_id ds)

/-- No letter is a digit, whether it is a capital or not. -/
theorem ignoresCase_isDigit : IgnoresCase Char.isDigit := ignoresCase_of_capitals (by decide)

theorem ignoresCase_toLower : IgnoresCase Char.toLower := ignoresCase_of_capitals (by decide)

/-- A capital takes as many bytes as its small letter. -/
theorem ignoresCase_utf8Size : IgnoresCase Char.utf8Size := ignoresCase_of_capitals (by decide)

/-- A text has as many bytes in small letters. -/
theorem byteLength_map_toLower (cs : List Char) :
    byteLength (cs.map Char.toLower) = byteLength cs := by
  induction cs with
  | nil => rfl
  | cons c cs ih => rw [List.map_cons, byteLength_cons, byteLength_cons, ih, ignoresCase_utf8Size c]

/-! ## Numerals -/

/-- A character is taken off a text in small letters just when it is taken off the text. -/
theorem takeIf_toLower {p : Char → Bool} (hp : IgnoresCase p) (cs : List Char) :
    takeIf p (cs.map Char.toLower) =
      ((takeIf p cs).1.map Char.toLower, (takeIf p cs).2.map Char.toLower) := by
  cases cs with
  | nil => rfl
  | cons c cs => by_cases h : p c = true <;> simp [takeIf, hp c, h]

/-- As many characters of a kind stand at the start of a text in small letters as of the text. -/
theorem takeWhile_take_toLower {p : Char → Bool} (hp : IgnoresCase p) (room : Nat)
    (cs : List Char) :
    ((cs.map Char.toLower).take room).takeWhile p =
      ((cs.take room).takeWhile p).map Char.toLower := by
  have hcomp : p ∘ Char.toLower = p := funext hp
  rw [← List.map_take, List.takeWhile_map, hcomp]

/-- The same digits are taken off a text in small letters. -/
theorem takeDigits_toLower (room : Nat) (cs : List Char) :
    takeDigits room (cs.map Char.toLower) =
      ((takeDigits room cs).1, (takeDigits room cs).2.map Char.toLower) := by
  have hdigits : ((cs.take room).takeWhile Char.isDigit).map Char.toLower =
      (cs.take room).takeWhile Char.isDigit :=
    map_toLower_of_isDigit fun d hd => isDigit_of_mem_takeDigits hd
  simp only [takeDigits, takeWhile_take_toLower ignoresCase_isDigit, hdigits, List.map_drop]

/-- The same sign is taken off a text in small letters. -/
theorem takeIf_sign_toLower (cs : List Char) :
    takeIf Significand.isSign (cs.map Char.toLower) =
      ((takeIf Significand.isSign cs).1, (takeIf Significand.isSign cs).2.map Char.toLower) := by
  have hsign : (takeIf Significand.isSign cs).1.map Char.toLower =
      (takeIf Significand.isSign cs).1 := by
    cases hs : (takeIf Significand.isSign cs).1 with
    | none => rfl
    | some sign =>
        have hmem : sign ∈ (takeIf Significand.isSign cs).1.toList := by simp [hs]
        rw [Option.map_some, toLower_eq_self (by decide) (of_mem_takeIf hmem)]
  rw [takeIf_toLower (ignoresCase_of_capitals (by decide)), hsign]

/-- The same significand is scanned in small letters, since it has no letters. -/
theorem Significand.scan_toLower (cs : List Char) :
    scan (cs.map Char.toLower) = ((scan cs).1, (scan cs).2.map Char.toLower) := by
  have hpoint : IgnoresCase fun c => decide (c = '.') := ignoresCase_of_capitals (by decide)
  unfold scan
  simp only [takeIf_sign_toLower, takeDigits_toLower, takeIf_toLower hpoint]
  generalize takeIf (fun c => decide (c = '.')) _ = point
  obtain ⟨_ | point, afterPoint⟩ := point
  · rfl
  · simp only [Option.map_some, takeDigits_toLower]

/-- The exponent with a small letter. -/
def Exponent.toLower (e : Exponent) : Exponent :=
  { e with mark := e.mark.toLower }

/-- The same exponent is scanned in small letters, but for its mark. -/
theorem Exponent.scan?_toLower (before : Nat) (cs : List Char) :
    scan? before (cs.map Char.toLower) =
      ((scan? before cs).1.map toLower, (scan? before cs).2.map Char.toLower) := by
  have hmark : IgnoresCase isMark := ignoresCase_of_capitals (by decide)
  unfold scan?
  rw [takeIf_toLower hmark]
  generalize takeIf isMark cs = mark
  obtain ⟨_ | mark, afterMark⟩ := mark
  · rfl
  · simp only [Option.map_some, takeIf_sign_toLower, takeDigits_toLower, toLower]

namespace Numeral

/-- The numeral with small letters. -/
def toLower (n : Numeral) : Numeral where
  significand := n.significand
  exponent := n.exponent.map Exponent.toLower
  suffix := n.suffix.map Char.toLower

/-- The same numeral is scanned in small letters, but for its mark and its suffix. -/
theorem scan_toLower (cs : List Char) :
    scan (cs.map Char.toLower) = ((scan cs).1.toLower, (scan cs).2.map Char.toLower) := by
  have hsuffix : IgnoresCase isSuffix := ignoresCase_of_capitals (by decide)
  have hany (e : Option Exponent) :
      (e.map Exponent.toLower).any (fun e => e.digits.isEmpty) =
        e.any fun e => e.digits.isEmpty := by
    cases e <;> rfl
  unfold scan
  rw [Significand.scan_toLower]
  dsimp only
  split
  · rfl
  · rw [Exponent.scan?_toLower]
    dsimp only
    rw [hany]
    split
    · rfl
    · rw [takeIf_toLower hsuffix]
      rfl

/-- Letters in a numeral count for nothing but for being there. -/
theorem token_toLower (n : Numeral) : n.toLower.token = n.token := by
  obtain ⟨significand, exponent, suffix⟩ := n
  have hdecimal : (⟨significand, exponent, suffix⟩ : Numeral).toLower.decimal =
      (⟨significand, exponent, suffix⟩ : Numeral).decimal := by
    cases exponent <;> rfl
  have hwell : (⟨significand, exponent, suffix⟩ : Numeral).toLower.isWellFormed =
      (⟨significand, exponent, suffix⟩ : Numeral).isWellFormed := by
    cases exponent <;> rfl
  have hfloat : (⟨significand, exponent, suffix⟩ : Numeral).toLower.isFloat =
      (⟨significand, exponent, suffix⟩ : Numeral).isFloat := by
    cases exponent <;> cases suffix <;> rfl
  unfold token
  rw [hwell, hfloat, hdecimal]
  rfl

end Numeral

/-! ## Words -/

/-- A word ends at the same place in small letters. -/
theorem Word.scan_toLower (c : Char) (cs : List Char) :
    scan c.toLower (cs.map Char.toLower) =
      ((scan c cs).1.map Char.toLower, (scan c cs).2.map Char.toLower) := by
  have hcontinues : IgnoresCase continuesWith := ignoresCase_of_capitals (by decide)
  simp only [scan, takeWhile_take_toLower hcontinues, List.length_map, List.map_cons,
    List.map_drop]

/-- A register is the letter of its class and the digits of its number. -/
theorem Register.ofWord?_eq_some_iff {word : List Char} {r : Register} :
    ofWord? word = some r ↔ ∃ digits, word = r.registerClass.letter :: digits ∧ digits ≠ [] ∧
      (∀ d ∈ digits, d.isDigit = true) ∧ digitsValue digits ≤ 4294967295 ∧
      r.index.toNat = digitsValue digits := by
  have hsize : UInt32.size = 4294967295 + 1 := rfl
  cases word with
  | nil => simp [ofWord?]
  | cons letter digits =>
      simp only [ofWord?, Option.bind_eq_bind, Option.bind_eq_some_iff, Option.guard_eq_some',
        RegisterClass.ofLetter?_eq_some_iff, Bool.and_eq_true, Bool.not_eq_true',
        List.isEmpty_eq_false_iff, List.all_eq_true, decide_eq_true_eq, Option.some.injEq,
        List.cons.injEq, Option.pure_def, hsize, Nat.lt_succ_iff]
      constructor
      · rintro ⟨c, rfl, -, ⟨⟨hne, hdigits⟩, hle⟩, rfl⟩
        refine ⟨digits, ⟨rfl, rfl⟩, hne, hdigits, hle, ?_⟩
        exact UInt32.toNat_ofNat_of_lt' (Nat.lt_succ_of_le hle)
      · rintro ⟨digits, ⟨rfl, rfl⟩, hne, hdigits, hle, hindex⟩
        refine ⟨r.registerClass, rfl, (), ⟨⟨hne, hdigits⟩, hle⟩, ?_⟩
        rw [← hindex, UInt32.ofNat_toNat]

/-- A word is a register if it names one, whatever else it might mean. -/
theorem Word.token_eq_register_iff {word : List Char} {r : Register} :
    token word = .register r ↔ Register.ofWord? word = some r := by
  unfold token
  cases Register.ofWord? word with
  | none => cases Keyword.ofWord? word <;> simp
  | some r' => simp

/-- A register is written in small letters. -/
theorem Register.map_toLower_of_ofWord? {word : List Char} {r : Register}
    (h : ofWord? word = some r) : word.map Char.toLower = word := by
  obtain ⟨digits, rfl, -, hdigits, -⟩ := ofWord?_eq_some_iff.1 h
  rw [List.map_cons, map_toLower_of_isDigit hdigits]
  cases r.registerClass <;> rfl

/-- A word is a keyword if it is looked up as one and names no register. -/
theorem Word.token_eq_keyword_iff {word : List Char} {k : Keyword} :
    token word = .keyword k ↔ Register.ofWord? word = none ∧ Keyword.ofWord? word = some k := by
  unfold token
  cases Register.ofWord? word with
  | none => cases Keyword.ofWord? word <;> simp
  | some r => simp

/-- Keywords are looked up in small letters. -/
theorem Keyword.ofWord?_toLower (word : List Char) :
    ofWord? (word.map Char.toLower) = ofWord? word := by
  have htwice : (word.map Char.toLower).map Char.toLower = word.map Char.toLower := by
    rw [List.map_map]
    exact List.map_congr_left fun c _ => ignoresCase_toLower c
  rw [ofWord?, htwice]
  rfl

/-- A word that is looked up as a keyword is its spelling, but for capitals. -/
theorem Keyword.map_toLower_of_ofWord? {word : List Char} {k : Keyword}
    (h : ofWord? word = some k) : word.map Char.toLower = k.spelling := by
  obtain ⟨before, after, hspellings, -⟩ := List.lookup_eq_some_iff.1 h
  have hmem : (word.map Char.toLower, k) ∈ spellings := by
    rw [hspellings]
    exact List.mem_append_right before (List.mem_cons_self ..)
  obtain ⟨k', -, hk'⟩ := List.mem_map.1 hmem
  obtain ⟨hspelling, rfl⟩ := Prod.mk.inj hk'
  exact hspelling.symm

/-- A word is a keyword exactly if it is this keyword in small letters: no keyword is a register in
small letters. -/
theorem Word.token_toLower_eq_keyword_iff {word : List Char} {k : Keyword} :
    token (word.map Char.toLower) = .keyword k ↔ token word = .keyword k := by
  constructor
  · intro h
    obtain ⟨hnone, hk⟩ := token_eq_keyword_iff.1 h
    rw [Keyword.ofWord?_toLower] at hk
    refine token_eq_keyword_iff.2 ⟨?_, hk⟩
    cases hr : Register.ofWord? word with
    | none => rfl
    | some r =>
        rw [Register.map_toLower_of_ofWord? hr, hr] at hnone
        cases hnone
  · intro h
    rw [Keyword.map_toLower_of_ofWord? (token_eq_keyword_iff.1 h).2]
    exact k.spelling_spec.2.2.2

/-! ## Tokens -/

/-- The token is a keyword or a number, whose letters may be capitals or small letters. -/
def Token.ignoresCase : Token → Bool
  | keyword _ | uint _ | int _ | float _ => true
  | _ => false

/-- A word is the same keyword in small letters. -/
theorem Word.token_toLower_eq_iff {word : List Char} {t : Token} (ht : t.ignoresCase = true) :
    token (word.map Char.toLower) = t ↔ token word = t := by
  have hnumber (word : List Char) (h : token word = t) : ∃ k, t = .keyword k := by
    subst h
    revert ht
    unfold token
    cases Register.ofWord? word <;> cases Keyword.ofWord? word <;> simp [Token.ignoresCase]
  constructor
  · intro h
    obtain ⟨k, rfl⟩ := hnumber _ h
    exact token_toLower_eq_keyword_iff.1 h
  · intro h
    obtain ⟨k, rfl⟩ := hnumber _ h
    exact token_toLower_eq_keyword_iff.2 h

/-- A text in small letters is cut where the text itself is, and its first token is the same if it
is a keyword or a number. -/
theorem FirstToken.scan_toLower (c : Char) (cs : List Char) :
    (scan c.toLower (cs.map Char.toLower)).rest = (scan c cs).rest.map Char.toLower ∧
      ∀ t : Token, t.ignoresCase = true →
        ((scan c.toLower (cs.map Char.toLower)).token = t ↔ (scan c cs).token = t) := by
  have hmark : IgnoresCase Token.ofPunctuation? := ignoresCase_of_capitals (by decide)
  have hnumeral : IgnoresCase Numeral.startsWith := ignoresCase_of_capitals (by decide)
  have hword : IgnoresCase Word.startsWith := ignoresCase_of_capitals (by decide)
  unfold scan
  rw [hmark, hnumeral, hword, ← List.map_cons, Numeral.scan_toLower, Word.scan_toLower]
  cases Token.ofPunctuation? c with
  | some mark => exact ⟨rfl, fun t _ => Iff.rfl⟩
  | none =>
      dsimp only
      split
      · exact ⟨rfl, fun t _ => by rw [Numeral.token_toLower]⟩
      · split
        · exact ⟨rfl, fun t ht => Word.token_toLower_eq_iff ht⟩
        · exact ⟨rfl, fun t _ => Iff.rfl⟩

/-- A token is cut off and read alike if its text and what is behind it are the same in small
letters, and letters in its text do not count unless they are the same. -/
theorem FirstToken.scan_eq_of_toLower_eq {c c' : Char} {tail tail' cs cs' : List Char}
    {token : Token} (h : scan c (tail ++ cs) = ⟨token, c :: tail, cs⟩)
    (htext : (c' :: tail').map Char.toLower = (c :: tail).map Char.toLower)
    (hrest : cs'.map Char.toLower = cs.map Char.toLower)
    (htoken : c' :: tail' = c :: tail ∨ token.ignoresCase = true) :
    scan c' (tail' ++ cs') = ⟨token, c' :: tail', cs'⟩ := by
  obtain ⟨token', tail₂, rest₂, hscan', hsplit⟩ := exists_scan_eq c' (tail' ++ cs')
  rw [List.map_cons, List.map_cons] at htext
  obtain ⟨hc, htail⟩ := List.cons_eq_cons.1 htext
  obtain ⟨hcut, htokens⟩ := scan_toLower c (tail ++ cs)
  obtain ⟨hcut', htokens'⟩ := scan_toLower c' (tail' ++ cs')
  have hlower : (tail' ++ cs').map Char.toLower = (tail ++ cs).map Char.toLower := by
    rw [List.map_append, List.map_append, htail, hrest]
  rw [hc, hlower, hcut, h, hscan'] at hcut'
  rw [hc, hlower, hscan'] at htokens'
  rw [h] at htokens
  -- Both texts are cut where the same number of characters is left.
  have hlength : cs'.length = rest₂.length := by
    have hmap := congrArg List.length (hrest.trans hcut')
    rwa [List.length_map, List.length_map] at hmap
  obtain ⟨rfl, rfl⟩ := List.append_inj' hsplit hlength
  obtain rfl : token = token' := by
    rcases htoken with hsame | hcase
    · obtain ⟨rfl, rfl⟩ := List.cons_eq_cons.1 hsame
      have hnothing (rest : List Char) : MayFollow rest [] := mayFollow_of_delimiter rest (by simp)
      have halone := scan_eq_of_mayFollow h (hnothing _)
      rw [scan_eq_of_mayFollow hscan' (hnothing _)] at halone
      exact (FirstToken.mk.inj halone).1.symm
    · exact ((htokens' token hcase).1 ((htokens token hcase).2 rfl)).symm
  exact hscan'

/-- Registers and keywords are read as words only. -/
theorem FirstToken.token_scan_eq_word {c : Char} {cs : List Char}
    (h : (∃ r, (scan c cs).token = .register r) ∨ ∃ k, (scan c cs).token = .keyword k) :
    (scan c cs).token = Word.token (scan c cs).text := by
  revert h
  unfold scan
  split
  · next mark hmark =>
      intro h
      unfold Token.ofPunctuation? at hmark
      split at hmark <;> cases hmark <;> simp at h
  · split
    · refine fun h => absurd h ?_
      show ¬ ((∃ r, Numeral.token _ = .register r) ∨ ∃ k, Numeral.token _ = .keyword k)
      unfold Numeral.token Numeral.integerToken
      cases Binary32.ofDecimal? (Numeral.decimal _) <;> (repeat' split) <;> simp
    · split
      · exact fun _ => rfl
      · simp

/-- The text of a keyword is its spelling, except for capitals. -/
theorem FirstToken.map_toLower_text_of_keyword {c : Char} {cs : List Char} {k : Keyword}
    (h : (scan c cs).token = .keyword k) :
    (scan c cs).text.map Char.toLower = k.spelling := by
  rw [token_scan_eq_word (.inr ⟨k, h⟩)] at h
  exact Keyword.map_toLower_of_ofWord? (Word.token_eq_keyword_iff.1 h).2

/-- A token is a register exactly if its text names one. -/
theorem FirstToken.token_scan_eq_register_iff {c : Char} {cs : List Char} {r : Register} :
    (scan c cs).token = .register r ↔ Register.ofWord? (scan c cs).text = some r := by
  obtain ⟨_, tail, _, hscan, -⟩ := exists_scan_eq c cs
  have hletter (h : Register.ofWord? (scan c cs).text = some r) : c = r.registerClass.letter := by
    obtain ⟨digits, htext, -⟩ := Register.ofWord?_eq_some_iff.1 h
    rw [hscan] at htext
    exact (List.cons_eq_cons.1 htext).1
  have hmarkless (c : RegisterClass) : Token.ofPunctuation? c.letter = none ∧
      Numeral.startsWith c.letter = false ∧ Word.startsWith c.letter = true := by
    cases c <;> decide
  constructor
  · intro h
    exact Word.token_eq_register_iff.1 ((token_scan_eq_word (.inl ⟨r, h⟩)).symm.trans h)
  · intro h
    obtain rfl := hletter h
    obtain ⟨hmark, hnumeral, hword⟩ := hmarkless r.registerClass
    revert h
    unfold scan
    rw [hmark, hnumeral, hword]
    exact Word.token_eq_register_iff.2

/-- A lexeme is a register exactly if its text is the letter of a class and the digits of a number
of 32 bits. -/
theorem token_eq_register_iff {base : Location} {offset : Nat} {cs : List Char} {l : Lexeme}
    (hl : l ∈ lexemesFrom base offset cs) (r : Register) :
    l.token = .register r ↔ ∃ digits, l.text.toList = r.registerClass.letter :: digits ∧
      digits ≠ [] ∧ (∀ d ∈ digits, d.isDigit = true) ∧ digitsValue digits ≤ 4294967295 ∧
      r.index.toNat = digitsValue digits := by
  obtain ⟨c, cs', -, htoken, htext⟩ := exists_scan_of_mem hl
  rw [← Register.ofWord?_eq_some_iff, htoken, htext, FirstToken.token_scan_eq_register_iff]

/-- The text of a lexeme that is a keyword is the spelling of the keyword, except for capitals. -/
theorem map_toLower_text_of_keyword {base : Location} {offset : Nat} {cs : List Char} {l : Lexeme}
    (hl : l ∈ lexemesFrom base offset cs) {k : Keyword} (hk : l.token = .keyword k) :
    l.text.toList.map Char.toLower = k.spelling := by
  obtain ⟨c, cs', -, htoken, htext⟩ := exists_scan_of_mem hl
  rw [htext]
  exact FirstToken.map_toLower_text_of_keyword (htoken.symm.trans hk)

end RootSignature
