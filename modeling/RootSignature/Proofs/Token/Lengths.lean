import RootSignature.Proofs.Error.Resumption
import RootSignature.Proofs.Token.NumberShape
import RootSignature.Proofs.Token.Spacing

/-!
# The lengths of tokens

A word has at most 63 characters, and so have the digits of a numeral together with what stands
before them. The point, the mark and the sign of an exponent and the suffix are taken beyond that,
but only one of each, and nothing can follow them that would need more digits (`Numeral.FitsRoom`).
So a float has at most 65 bytes and a malformed numeral at most 66.

A run that is longer is not lost: the token ends within it, and the next token begins there
(`token_lengths`).
-/

namespace RootSignature

/-! ## Texts of ASCII characters -/

/-- A text has as many bytes as characters if each of them is one byte, and only then. -/
theorem byteLength_le_length_iff {cs : List Char} :
    byteLength cs ≤ cs.length ↔ ∀ c ∈ cs, c.utf8Size = 1 := by
  induction cs with
  | nil => simp
  | cons c cs ih =>
      have hpos := c.utf8Size_pos
      have hle := length_le_byteLength cs
      rw [List.forall_mem_cons, ← ih, byteLength_cons, List.length_cons]
      omega

/-- A character of ASCII takes one byte. -/
theorem utf8Size_eq_one_of_toNat_lt {c : Char} (h : c.toNat < 128) : c.utf8Size = 1 := by
  rw [Char.utf8Size_eq_one_iff, UInt32.le_iff_toNat_le]
  exact Nat.le_of_lt_succ h

/-- A text of ASCII has as many bytes as characters. -/
theorem byteLength_eq_length {cs : List Char} (h : ∀ c ∈ cs, c.toNat < 128) :
    byteLength cs = cs.length :=
  Nat.le_antisymm
    (byteLength_le_length_iff.2 fun c hc => utf8Size_eq_one_of_toNat_lt (h c hc))
    (length_le_byteLength cs)

/-- A lexeme is a text of ASCII characters, or a single character. -/
theorem ascii_or_singleton_of_mem {base : Location} {offset : Nat} {cs : List Char} {l : Lexeme}
    (hl : l ∈ lexemesFrom base offset cs) :
    (l.text.toList ≠ [] ∧ ∀ c ∈ l.text.toList, c.utf8Size = 1) ∨ ∃ c, l.text.toList = [c] := by
  obtain ⟨c, cs', -, -, htext⟩ := exists_scan_of_mem hl
  by_cases hascii : ∀ d ∈ (FirstToken.scan c cs').text, d.utf8Size = 1
  · rw [htext]
    exact .inl ⟨FirstToken.text_ne_nil c cs', hascii⟩
  · push Not at hascii
    obtain ⟨d, hd, hsize⟩ := hascii
    have hwide : ¬ d.toNat < 128 := fun hlt => hsize (utf8Size_eq_one_of_toNat_lt hlt)
    have hnumeral : ¬ Numeral.isPart d := fun h => hwide (Numeral.toNat_lt_of_isPart h)
    have hword : ¬ Word.continuesWith d := fun h => hwide (Word.toNat_lt_of_continuesWith h)
    exact .inr ⟨d, htext.trans (FirstToken.text_eq_of_mem hnumeral hword hd)⟩

/-! ## The room for digits -/

/-- No more digits are taken than there is room for. -/
theorem length_takeDigits_le (room : Nat) (cs : List Char) :
    (takeDigits room cs).1.length ≤ room :=
  (List.takeWhile_prefix _).length_le.trans (List.length_take_le room cs)

theorem length_toList_le_one {α : Type} (o : Option α) : o.toList.length ≤ 1 := by
  cases o <;> simp

/-- The digits of a significand have been taken while there was room. -/
structure Significand.FitsRoom (s : Significand) : Prop where
  whole : s.sign.toList.length + s.whole.length ≤ maxTokenLength
  fraction : ∀ ds ∈ s.fraction,
    ds.length ≤ maxTokenLength - (s.sign.toList.length + s.whole.length + 1)

/-- The digits of an exponent behind so many characters have been taken while there was room. -/
def Exponent.FitsRoom (e : Exponent) (before : Nat) : Prop :=
  e.digits.length ≤ maxTokenLength - (before + 1 + e.sign.toList.length)

/-- The digits of a numeral have been taken while there was room, and nothing has been taken behind
a part that lacks digits. -/
structure Numeral.FitsRoom (n : Numeral) : Prop where
  significand : n.significand.FitsRoom
  exponent : ∀ e ∈ n.exponent, e.FitsRoom n.significand.toList.length
  suffix_missing : n.isWellFormed = false → n.suffix = none

/-- What is scanned as a significand fits the room. -/
theorem Significand.fitsRoom_scan (cs : List Char) : (scan cs).1.FitsRoom := by
  have hwhole : (takeIf isSign cs).1.toList.length + (takeDigits
      (maxTokenLength - (takeIf isSign cs).1.toList.length) (takeIf isSign cs).2).1.length ≤
      maxTokenLength := by
    have hsign : (takeIf isSign cs).1.toList.length ≤ maxTokenLength :=
      (length_toList_le_one _).trans (by decide)
    have hdigits := length_takeDigits_le (maxTokenLength - (takeIf isSign cs).1.toList.length)
      (takeIf isSign cs).2
    omega
  unfold scan
  dsimp only
  split
  · exact ⟨hwhole, nofun⟩
  · refine ⟨hwhole, ?_⟩
    rintro _ ⟨⟩
    exact length_takeDigits_le _ _

/-- What is scanned as an exponent fits the room behind its significand. -/
theorem Exponent.fitsRoom_scan? {before : Nat} {cs : List Char} {e : Exponent}
    (h : e ∈ (scan? before cs).1) : e.FitsRoom before := by
  revert h
  unfold scan?
  split
  · exact nofun
  · rintro ⟨⟩
    exact length_takeDigits_le _ _

/-- What is scanned as a numeral fits the room. -/
theorem Numeral.fitsRoom_scan (cs : List Char) : (scan cs).1.FitsRoom := by
  have hsignificand := Significand.fitsRoom_scan cs
  unfold scan
  dsimp only
  split
  · exact ⟨hsignificand, nofun, fun _ => rfl⟩
  · next hdigits =>
      split
      · exact ⟨hsignificand, fun e he => Exponent.fitsRoom_scan? he, fun _ => rfl⟩
      · next hexponent =>
          refine ⟨hsignificand, fun e he => Exponent.fitsRoom_scan? he,
            fun h => absurd (isWellFormed_iff.2 ⟨?_, ?_⟩) (Bool.eq_false_iff.1 h)⟩
          · exact fun hempty => hdigits (List.isEmpty_iff.2 hempty)
          · intro e he hempty
            exact hexponent ((Option.any_eq_true _ _).2 ⟨e, he, List.isEmpty_iff.2 hempty⟩)

/-! ## The lengths of numerals -/

theorem Significand.length_toList (s : Significand) :
    s.toList.length = s.sign.toList.length + s.whole.length +
      (s.fraction.elim [] ('.' :: ·)).length := by
  rw [toList, List.length_append, List.length_append]

theorem Exponent.length_toList (e : Exponent) :
    e.toList.length = 1 + e.sign.toList.length + e.digits.length := by
  rw [toList, List.length_cons, List.length_append]
  omega

/-- A point is the only character of a significand that there may be no room for. -/
theorem Significand.FitsRoom.length_le {s : Significand} (h : s.FitsRoom) :
    s.toList.length ≤ 64 ∧ (s.fraction = none → s.toList.length ≤ 63) := by
  have hwhole : s.sign.toList.length + s.whole.length ≤ 63 := h.whole
  have hlength := s.length_toList
  cases hfraction : s.fraction with
  | none =>
      rw [hfraction] at hlength
      simp only [Option.elim_none, List.length_nil] at hlength
      exact ⟨by omega, fun _ => by omega⟩
  | some ds =>
      have hds : ds.length ≤ 63 - (s.sign.toList.length + s.whole.length + 1) :=
        h.fraction ds hfraction
      rw [hfraction] at hlength
      simp only [Option.elim_some, List.length_cons] at hlength
      exact ⟨by omega, nofun⟩

/-- With digits, an exponent ends within the room. Without, it has a mark and a sign beyond it. -/
theorem Exponent.FitsRoom.length_le {e : Exponent} {before : Nat} (h : e.FitsRoom before) :
    before + e.toList.length ≤ max 63 (before + 2) ∧
      (e.digits ≠ [] → before + e.toList.length ≤ 63) := by
  have hdigits : e.digits.length ≤ 63 - (before + 1 + e.sign.toList.length) := h
  have hsign := length_toList_le_one e.sign
  have hlength := e.length_toList
  refine ⟨by omega, fun hne => ?_⟩
  have hpos := List.length_pos_iff.2 hne
  omega

theorem Numeral.length_toList (n : Numeral) :
    n.toList.length = n.significand.toList.length +
      (n.exponent.elim [] Exponent.toList).length + n.suffix.toList.length := by
  rw [toList, List.length_append, List.length_append]

/-- A numeral has at most 66 characters, at most 65 if it is well formed, and at most 63 if moreover
it is whole. -/
theorem Numeral.FitsRoom.length_le {n : Numeral} (h : n.FitsRoom) :
    n.toList.length ≤ 66 ∧ (n.isWellFormed = true → n.toList.length ≤ 65) ∧
      (n.isFloat = false → n.toList.length ≤ 63) := by
  obtain ⟨hsignificand, hwhole⟩ := h.significand.length_le
  have hsuffix := length_toList_le_one n.suffix
  have hlength := n.length_toList
  cases hexponent : n.exponent with
  | none =>
      rw [hexponent, Option.elim_none, List.length_nil] at hlength
      refine ⟨by omega, fun _ => by omega, fun hfloat => ?_⟩
      have hmissing : n.significand.fraction = none ∧ n.suffix = none := by
        simpa [isFloat, hexponent] using hfloat
      have hle := hwhole hmissing.1
      rw [hmissing.2, Option.toList_none, List.length_nil] at hlength
      omega
  | some e =>
      obtain ⟨hle, hle'⟩ := (h.exponent e hexponent).length_le
      rw [hexponent, Option.elim_some] at hlength
      refine ⟨?_, fun hwell => ?_, fun hfloat => ?_⟩
      · cases hwell : n.isWellFormed with
        | false =>
            rw [h.suffix_missing hwell, Option.toList_none, List.length_nil] at hlength
            omega
        | true =>
            have hdigits := hle' ((isWellFormed_iff.1 hwell).2 e hexponent)
            omega
      · have hdigits := hle' ((isWellFormed_iff.1 hwell).2 e hexponent)
        omega
      · simp [isFloat, hexponent] at hfloat

/-! ## Runs of digits -/

/-- No more than so many digits of a text stand side by side. -/
def DigitRunsWithin (n : Nat) (cs : List Char) : Prop :=
  ∀ run, run <:+: cs → (∀ d ∈ run, d.isDigit = true) → run.length ≤ n

namespace DigitRunsWithin

variable {n : Nat} {as bs : List Char}

/-- A short text has short runs of digits only. -/
theorem of_length_le (h : as.length ≤ n) : DigitRunsWithin n as :=
  fun _ hrun _ => hrun.length_le.trans h

/-- A character that is no digit ends the runs before it. -/
theorem append_cons {c : Char} (hc : c.isDigit = false) (has : DigitRunsWithin n as)
    (hbs : DigitRunsWithin n bs) : DigitRunsWithin n (as ++ c :: bs) := by
  have hstart {run : List Char} (hrun : run <+: c :: bs) (hdigits : ∀ d ∈ run, d.isDigit = true) :
      run = [] := by
    cases run with
    | nil => rfl
    | cons d run =>
        obtain ⟨rfl, -⟩ := List.cons_prefix_cons.1 hrun
        rw [hdigits d (List.mem_cons_self ..)] at hc
        cases hc
  intro run hrun hdigits
  rcases List.infix_append_iff.1 hrun with hrun | hrun | ⟨front, back, rfl, hfront, hback⟩
  · exact has run hrun hdigits
  · rcases List.infix_cons_iff.1 hrun with hrun | hrun
    · rw [hstart hrun hdigits]
      exact Nat.zero_le n
    · exact hbs run hrun hdigits
  · obtain rfl := hstart hback fun d hd => hdigits d (List.mem_append_right front hd)
    rw [List.append_nil] at hdigits ⊢
    exact has front hfront.isInfix hdigits

/-- A missing character, or one that is no digit, makes no run longer. -/
theorem append_toList {o : Option Char} (ho : ∀ c ∈ o, c.isDigit = false)
    (has : DigitRunsWithin n as) : DigitRunsWithin n (as ++ o.toList) := by
  cases o with
  | none => rwa [Option.toList_none, List.append_nil]
  | some c => exact append_cons (ho c rfl) has (of_length_le (Nat.zero_le n))

/-- A missing character, or one that is no digit, makes no run behind it longer. -/
theorem toList_append {o : Option Char} (ho : ∀ c ∈ o, c.isDigit = false)
    (hbs : DigitRunsWithin n bs) : DigitRunsWithin n (o.toList ++ bs) := by
  cases o with
  | none => exact hbs
  | some c =>
      show DigitRunsWithin n ([] ++ c :: bs)
      exact append_cons (ho c rfl) (of_length_le (Nat.zero_le n)) hbs

end DigitRunsWithin

theorem Significand.isDigit_of_isSign {c : Char} (h : isSign c = true) : c.isDigit = false := by
  by_contra hc
  rw [isSign_of_isDigit (Bool.not_eq_false _ ▸ hc)] at h
  cases h

/-- The point of a significand divides its digits. -/
theorem Significand.digitRunsWithin {s : Significand} (hs : s.IsWritten) (h : s.FitsRoom) :
    DigitRunsWithin maxTokenLength s.toList := by
  have hwhole : DigitRunsWithin maxTokenLength (s.sign.toList ++ s.whole) :=
    .toList_append (fun c hc => isDigit_of_isSign (hs.sign c hc))
      (.of_length_le ((Nat.le_add_left _ _).trans h.whole))
  rw [toList]
  cases hfraction : s.fraction with
  | none => rwa [Option.elim_none, List.append_nil]
  | some ds =>
      have hds : ds.length ≤ maxTokenLength := (h.fraction ds hfraction).trans (Nat.sub_le _ _)
      exact hwhole.append_cons rfl (.of_length_le hds)

/-- The digits of an exponent are one run. -/
theorem Exponent.FitsRoom.digitRunsWithin {e : Exponent} {before : Nat} (he : e.IsWritten)
    (h : e.FitsRoom before) : DigitRunsWithin maxTokenLength (e.sign.toList ++ e.digits) :=
  .toList_append (fun c hc => Significand.isDigit_of_isSign (he.sign c hc))
    (.of_length_le (Nat.le_trans h (Nat.sub_le _ _)))

/-- The digits of a numeral are in three runs, each of which has been taken while there was room. -/
theorem Numeral.digitRunsWithin {n : Numeral} (hn : n.IsWritten) (h : n.FitsRoom) :
    DigitRunsWithin maxTokenLength n.toList := by
  have hsignificand := Significand.digitRunsWithin hn.significand h.significand
  refine .append_toList (fun c hc => (of_isSuffix (hn.suffix c hc)).1) ?_
  cases hexponent : n.exponent with
  | none => rwa [Option.elim_none, List.append_nil]
  | some e =>
      have he := hn.exponent e hexponent
      exact hsignificand.append_cons (Exponent.of_isMark he.mark).1
        ((h.exponent e hexponent).digitRunsWithin he)

/-! ## The lengths of tokens -/

/-- What the text of a token is bounded by. -/
structure Token.WithinLimits (token : Token) (text : List Char) : Prop where
  length_le : byteLength text ≤ 66
  word : (∃ c ∈ text.head?, Word.startsWith c = true) → byteLength text ≤ 63
  whole : (∃ v, token = .uint v) ∨ (∃ v, token = .int v) → byteLength text ≤ 63
  float : (∃ x, token = .float x) → byteLength text ≤ 65
  digits : DigitRunsWithin 63 text

/-- A text of at most 63 bytes is within all limits. -/
theorem Token.WithinLimits.of_byteLength_le {token : Token} {text : List Char}
    (h : byteLength text ≤ 63) : token.WithinLimits text :=
  ⟨by omega, fun _ => h, fun _ => h, fun _ => by omega,
    .of_length_le ((length_le_byteLength text).trans h)⟩

/-- A word is cut off at the limit. -/
theorem Word.length_scan_le (c : Char) (cs : List Char) :
    (scan c cs).1.length ≤ maxTokenLength := by
  have htail := (List.takeWhile_prefix continuesWith).length_le.trans
    (List.length_take_le (maxTokenLength - 1) cs)
  exact Nat.succ_le_succ htail

/-- A numeral keeps the limits of its token. -/
theorem Numeral.withinLimits_scan {c : Char} (hc : startsWith c = true) (cs : List Char) :
    (scan (c :: cs)).1.token.WithinLimits (scan (c :: cs)).1.toList := by
  have hwritten := isWritten_scan (c :: cs)
  have hroom := fitsRoom_scan (c :: cs)
  have hbytes : byteLength (scan (c :: cs)).1.toList = (scan (c :: cs)).1.toList.length :=
    byteLength_eq_length fun d hd => toNat_lt_of_isPart (isPart_of_mem hd)
  have happend := toList_append_scan (c :: cs)
  have hne := toList_scan_ne_nil hc cs
  generalize (scan (c :: cs)).1 = n at *
  obtain ⟨hle, hwell, hwhole⟩ := hroom.length_le
  rw [← hbytes] at hle hwell hwhole
  refine ⟨hle, ?_, fun h => ?_, ?_, digitRunsWithin hwritten hroom⟩
  · rintro ⟨d, hd, hstart⟩
    -- The text starts with the character that it was scanned from, which starts no word.
    obtain ⟨d', ds, htext⟩ := List.exists_cons_of_ne_nil hne
    rw [htext] at happend hd
    obtain rfl : d' = d := Option.some.inj hd
    obtain rfl : d' = c := (List.cons.inj happend).1
    rw [(Word.of_startsWith hstart).2] at hc
    cases hc
  · have hnumber : n.token.IsNumber := by
      rcases h with ⟨v, hv⟩ | ⟨v, hv⟩
      all_goals
        rw [hv]
        trivial
    rcases token_cases hnumber with ⟨-, x, hx⟩ | ⟨hfloat, -⟩
    · rcases h with ⟨v, hv⟩ | ⟨v, hv⟩ <;> cases hx.symm.trans hv
    · exact hwhole hfloat
  · rintro ⟨x, hx⟩
    exact hwell (isWellFormed_of_isNumber (hx ▸ trivial))

/-- The first token of a text keeps the limits of its kind. -/
theorem FirstToken.withinLimits_scan (c : Char) (cs : List Char) :
    (scan c cs).token.WithinLimits (scan c cs).text := by
  by_cases hnumeral : Numeral.startsWith c = true
  · have hlimits := Numeral.withinLimits_scan hnumeral cs
    rw [scan_numeral hnumeral]
    dsimp only
    exact hlimits
  · by_cases hword : Word.startsWith c = true
    · have hbytes : byteLength (Word.scan c cs).1 = (Word.scan c cs).1.length :=
        byteLength_eq_length fun d hd =>
          Word.toNat_lt_of_continuesWith (Word.continuesWith_of_mem hword hd)
      have hle : byteLength (Word.scan c cs).1 ≤ 63 := by
        rw [hbytes]
        exact Word.length_scan_le c cs
      rw [scan_word hword]
      dsimp only
      exact .of_byteLength_le hle
    · have htext : (scan c cs).text = [c] := by
        unfold scan
        cases Token.ofPunctuation? c <;> simp [hnumeral, hword]
      have hsize := c.utf8Size_le_four
      rw [htext]
      refine .of_byteLength_le ?_
      rw [byteLength_cons, byteLength_nil]
      omega

/-- Every lexeme is within the limits. -/
theorem withinLimits_of_mem {base : Location} {offset : Nat} {cs : List Char} {l : Lexeme}
    (hl : l ∈ lexemesFrom base offset cs) : l.token.WithinLimits l.text.toList := by
  obtain ⟨c, cs', -, htoken, htext⟩ := exists_scan_of_mem hl
  rw [htoken, htext]
  exact FirstToken.withinLimits_scan c cs'

/-! ## Runs that are cut off -/

/-- A run of word characters that there is no room for is cut off where the room ends. -/
theorem Word.scan_append {c : Char} {tail : List Char} (hlength : 63 < (c :: tail).length)
    (hcontinues : ∀ d ∈ c :: tail, continuesWith d = true) (rest : List Char) :
    scan c (tail ++ rest) = ((c :: tail).take 63, (c :: tail).drop 63 ++ rest) := by
  have hroom : maxTokenLength - 1 = 62 := rfl
  have hle : 62 ≤ tail.length := Nat.le_of_lt_succ (Nat.lt_of_succ_lt hlength)
  have htake : ((tail ++ rest).take 62).takeWhile continuesWith = tail.take 62 := by
    rw [List.take_append_of_le_length hle, List.takeWhile_eq_self_iff]
    exact fun d hd => hcontinues d (List.mem_cons_of_mem c (List.mem_of_mem_take hd))
  have hlen : (tail.take 62).length = 62 := List.length_take_of_le hle
  rw [scan, hroom, htake, hlen, List.drop_append_of_le_length hle]
  rfl

/-- A text that starts with such a run is cut within the run, and its next lexeme starts there. -/
theorem lexemesFrom_run (base : Location) (offset : Nat) {run : List Char}
    (hlength : 63 < run.length) (hstart : ∀ c ∈ run.head?, Word.startsWith c = true)
    (hcontinues : ∀ c ∈ run, Word.continuesWith c = true) (rest : List Char) :
    lexemesFrom base offset (run ++ rest) =
      ⟨Word.token (run.take 63), String.ofList (run.take 63), base.offset offset⟩ ::
        lexemesFrom base (offset + 63) (run.drop 63 ++ rest) := by
  obtain ⟨c, tail, rfl⟩ := List.exists_cons_of_length_pos (Nat.zero_lt_of_lt hlength)
  have hc : Word.startsWith c = true := hstart c rfl
  have hspace := (of_not_isDelimiter (Word.of_startsWith hc).1).1
  have hscan := FirstToken.scan_word hc (tail ++ rest)
  rw [Word.scan_append hlength hcontinues] at hscan
  have hbytes : byteLength ((c :: tail).take 63) = 63 := by
    rw [byteLength_eq_length fun d hd =>
      Word.toNat_lt_of_continuesWith (hcontinues d (List.mem_of_mem_take hd))]
    exact List.length_take_of_le (Nat.le_of_lt hlength)
  rw [List.cons_append, lexemesFrom_of_scan base offset hspace hscan, hbytes]

/-- The lexemes of a text that starts with no space begin with one that starts there. -/
theorem lexemesFrom_cons (base : Location) (offset : Nat) {c : Char} (hc : c ≠ ' ')
    (cs : List Char) :
    ∃ l ls, lexemesFrom base offset (c :: cs) = l :: ls ∧ l.location = base.offset offset ∧
      l.text.toList.head? = some c := by
  obtain ⟨token, tail, rest, hscan, -⟩ := FirstToken.exists_scan_eq c cs
  refine ⟨_, _, lexemesFrom_of_scan base offset hc hscan, rfl, ?_⟩
  rw [String.toList_ofList]
  rfl

/-- The lexemes of every source are of bounded length: words and whole numbers have at most 63
bytes, floats at most 65 and all others at most 66, and no more than 63 digits stand side by side in
any of them. Nothing is lost at the bound: behind each lexeme the text is cut on where it ends. In
particular, a lexeme that starts with a longer run of word characters is the first 63 of them, and
the next lexeme starts with the 64th. -/
theorem token_lengths (source : String) (base : Location) :
    (∀ l ∈ (TokenStream.ofSource source base).lexemes,
      l.width ≤ 66 ∧
      ((∃ c ∈ l.text.toList.head?, Word.startsWith c = true) → l.width ≤ 63) ∧
      ((∃ v, l.token = .uint v) ∨ (∃ v, l.token = .int v) → l.width ≤ 63) ∧
      ((∃ x, l.token = .float x) → l.width ≤ 65) ∧
      ∀ run, run <:+: l.text.toList → (∀ d ∈ run, d.isDigit = true) → run.length ≤ 63) ∧
    ∀ front l back, (TokenStream.ofSource source base).lexemes = front ++ l :: back →
      ∃ before after, readableText source = before ++ (l.text.toList ++ after) ∧
        l.location = base.offset (byteLength before) ∧
        back = lexemesFrom base (byteLength before + l.width) after ∧
        ∀ run rest, l.text.toList ++ after = run ++ rest → 63 < run.length →
          (∀ c ∈ run.head?, Word.startsWith c = true) →
          (∀ c ∈ run, Word.continuesWith c = true) →
          l.text.toList = run.take 63 ∧ after = run.drop 63 ++ rest ∧
            ∃ next ∈ back.head?, next.location = base.offset (byteLength before + 63) ∧
              next.text.toList.head? = run[63]? := by
  refine ⟨fun l hl => ?_, fun front l back hls => ?_⟩
  · have hwidth : byteLength l.text.toList = l.width := byteLength_toList l.text
    obtain ⟨hle, hword, hwhole, hfloat, hdigits⟩ := withinLimits_of_mem hl
    rw [hwidth] at hle hword hwhole hfloat
    exact ⟨hle, hword, hwhole, hfloat, hdigits⟩
  · obtain ⟨before, after, htext, hlocation, hfrom, hback⟩ := lexemesFrom_cut hls rfl
    simp only [Nat.zero_add, Reader.head_cons, List.tail_cons] at htext hlocation hfrom hback
    rw [byteLength_append, byteLength_toList] at hback
    refine ⟨before, after, htext, hlocation, hback.symm,
      fun run rest hrun hlength hstart hall => ?_⟩
    rw [hrun, lexemesFrom_run base _ hlength hstart hall] at hfrom
    obtain ⟨rfl, hnext⟩ := List.cons.inj hfrom
    have hcut : run.take 63 ++ after = run.take 63 ++ (run.drop 63 ++ rest) := by
      rw [← List.append_assoc, List.take_append_drop, ← hrun, String.toList_ofList]
    refine ⟨String.toList_ofList, List.append_cancel_left hcut, ?_⟩
    have hspace : run[63] ≠ ' ' := by
      intro hspace
      cases hspace ▸ hall run[63] (List.getElem_mem hlength)
    rw [List.drop_eq_getElem_cons hlength, List.cons_append] at hnext
    obtain ⟨next, ls, hbegin, hplace, hhead⟩ :=
      lexemesFrom_cons base (byteLength before + 63) hspace (run.drop 64 ++ rest)
    rw [hbegin] at hnext
    rw [← hnext, List.getElem?_eq_getElem hlength]
    exact ⟨next, rfl, hplace, hhead⟩

/-- A malformed numeral of the greatest length, and behind it a run of 70 letters. -/
theorem token_lengths_longest :
    let source := String.ofList (List.replicate 63 '1' ++ ".e+ ".toList ++ List.replicate 70 'a')
    ∃ numeral word next : Lexeme,
      (TokenStream.ofSource source .first).lexemes = [numeral, word, next] ∧
      numeral.width = 66 ∧ numeral.width ≤ 66 ∧
      word.text.toList = (List.replicate 70 'a').take 63 ∧
      next.location = Location.first.offset (67 + 63) ∧ next.text.toList.head? = some 'a' := by
  intro source
  let numeral : Lexeme := ⟨.unknown, String.ofList (List.replicate 63 '1' ++ ".e+".toList), ⟨0⟩⟩
  let word : Lexeme := ⟨.unknown, String.ofList (List.replicate 63 'a'), ⟨67⟩⟩
  let next : Lexeme := ⟨.unknown, String.ofList (List.replicate 7 'a'), ⟨130⟩⟩
  have hlexemes : (TokenStream.ofSource source .first).lexemes = [numeral, word, next] := by
    decide +kernel
  have hrun : splitAtByte? (readableText source) 67 =
      some (List.replicate 63 '1' ++ ".e+ ".toList, List.replicate 70 'a') := by
    decide +kernel
  obtain ⟨hbounds, hcut⟩ := token_lengths source .first
  have hmem : numeral ∈ (TokenStream.ofSource source .first).lexemes := by
    rw [hlexemes]
    exact List.mem_cons_self ..
  obtain ⟨before, after, htext, hlocation, -, hsplit⟩ := hcut [numeral] word [next] hlexemes
  have hle : byteLength before ≤ 137 := by
    have hbytes : byteLength (readableText source) = 137 := by decide +kernel
    rw [htext, byteLength_append] at hbytes
    omega
  have hbefore : 67 = byteLength before := by
    rw [← Location.raw_first_offset_of_le (hle.trans (by decide)), ← hlocation]
    rfl
  have hparts := hrun.symm.trans (splitAtByte?_eq_some_iff.2 ⟨htext, hbefore⟩)
  have hletters : word.text.toList ++ after = List.replicate 70 'a' ++ [] := by
    rw [List.append_nil]
    exact (Prod.mk.inj (Option.some.inj hparts)).2.symm
  have hstart : ∀ c ∈ (List.replicate 70 'a').head?, Word.startsWith c = true := by
    rintro _ ⟨⟩
    rfl
  have hrest : ∀ c ∈ List.replicate 70 'a', Word.continuesWith c = true := by
    rintro c hc
    rw [List.eq_of_mem_replicate hc]
    rfl
  obtain ⟨hword, -, m, hm, hplace, hhead⟩ := hsplit _ [] hletters (by decide) hstart hrest
  obtain rfl : next = m := Option.some.inj hm
  rw [← hbefore] at hplace
  exact ⟨numeral, word, next, hlexemes, by decide +kernel, (hbounds numeral hmem).1, hword, hplace,
    hhead⟩

end RootSignature
