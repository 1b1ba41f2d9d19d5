import RootSignature.Proofs.Binary.WholeNumbers
import RootSignature.Proofs.Dialect.Unflagged
import RootSignature.Proofs.Grammar.Respelled
import RootSignature.Proofs.Reader.Moved
import RootSignature.Proofs.Token.Edited
import RootSignature.Proofs.Token.FloatLiterals
import RootSignature.Proofs.Token.Spacing

/-!
# Whole numbers as floats

A whole number stands for the same float if it is spelled as a float (`exists_spells`): the two
roundings of a decimal are one, since 64-bit floats have all whole numbers of 32 bits. So it does
not matter in which of its spellings it is given to a static sampler (`float_spellings_agree`).
-/

namespace RootSignature

open Grammar

/-! ## Spellings -/

/-- The spellings of a whole number where a float is expected: as it is, and as a float with a
point, with a fraction or with a suffix. -/
def floatSpellings (t : String) : List String :=
  [t, t ++ ".", t ++ ".0", t ++ "f"]

/-- The numeral has a text that there is room for, and stands for a float. -/
structure Numeral.Spells (n : Numeral) (text : String) (x : Binary32) : Prop where
  written : n.IsWritten
  wellFormed : n.isWellFormed = true
  toList_eq : n.toList = text.toList
  room : text.toList.length ≤ maxTokenLength
  floatNumber : FloatNumber [n.token] x

/-- A numeral without an exponent, whose fraction is zero, stands for a whole number. -/
theorem Numeral.magnitude_of_whole {n : Numeral} (hexponent : n.exponent = none)
    (hfraction : digitsValue (n.significand.fraction.getD []) = 0) :
    n.decimal.magnitude = digitsValue n.significand.whole := by
  rw [← abs_value, value, hexponent, hfraction]
  have hnonneg : (0 : ℚ) ≤ digitsValue n.significand.whole := Nat.cast_nonneg _
  split <;> simp [abs_of_nonneg]

/-- If such a numeral is a float, it is the float of the whole number. -/
theorem Numeral.token_of_whole {n : Numeral} (hwell : n.isWellFormed = true)
    (hfloat : n.isFloat = true) (hexponent : n.exponent = none)
    (hfraction : digitsValue (n.significand.fraction.getD []) = 0) {v : Int}
    (hv : v.natAbs = digitsValue n.significand.whole) (hsign : n.isNegative = decide (v < 0))
    (hsize : v.natAbs ≤ UInt32.size) : n.token = .float (.ofInt v) := by
  have hmagnitude : n.decimal.magnitude = v.natAbs := by
    rw [magnitude_of_whole hexponent hfraction, hv]
  simp [token, hwell, hfloat, Binary32.ofDecimal?_eq_ofInt hmagnitude hsign hsize]

/-- The numeral is a whole number of 32 bits that has a text and a value. A zero has no minus
sign. -/
structure Numeral.IsWhole (n : Numeral) (text : String) (v : Int) : Prop where
  written : n.IsWritten
  wellFormed : n.isWellFormed = true
  toList_eq : n.toList = text.toList
  float : n.isFloat = false
  floatNumber : FloatNumber [n.token] (.ofInt v)
  magnitude : v.natAbs = digitsValue n.significand.whole
  sign : n.isNegative = decide (v < 0)
  size : v.natAbs ≤ UInt32.size

/-- A text that is read as a whole number other than a negative zero is that of this number. -/
theorem exists_isWhole {t : String} {token : Token}
    (ht : (TokenStream.ofSource t .first).lexemes = [⟨token, t, .first⟩])
    (htoken : (∃ v, token = .uint v) ∨ ∃ v, token = .int v ∧ v ≠ 0) :
    ∃ (n : Numeral) (v : Int), n.IsWhole t v := by
  have hmem : ⟨token, t, .first⟩ ∈ (TokenStream.ofSource t .first).lexemes := by
    rw [ht]
    exact List.mem_singleton.2 rfl
  have hnumber : token.IsNumber := by
    rcases htoken with ⟨v, rfl⟩ | ⟨v, rfl, -⟩ <;> trivial
  obtain ⟨n, hn, hwell, htext, heq⟩ := exists_numeral_of_isNumber hmem hnumber
  obtain rfl : token = n.token := heq
  have hfloat : n.isFloat = false := by
    rcases n.token_cases hnumber with ⟨-, x, hx⟩ | ⟨hfloat, -⟩
    · rw [hx] at htoken
      simp at htoken
    · exact hfloat
  have hdigits : n.significand.digits = n.significand.whole := by
    have hfraction : n.significand.fraction = none := by
      simp only [Numeral.isFloat, Bool.or_eq_false_iff] at hfloat
      simpa using hfloat.1.1
    rw [Significand.digits, hfraction, Option.getD_none, List.append_nil]
  have hvalue := n.wholeNumber_toList hn hfloat
  rw [hdigits] at hvalue
  have hwhole := n.token_ofWholeNumber hn hwell hfloat
  rcases n.token_cases hnumber with
    ⟨-, x, hx⟩ | ⟨-, ⟨hnegative, v, hv⟩ | ⟨hnegative, v, hv⟩⟩
  · rw [hx] at htoken
    simp at htoken
  · have hv_eq : v.toInt = wholeNumber n.toList := (hv ▸ hwhole).toInt_eq
    rw [hnegative, if_pos rfl] at hvalue
    have hne : v.toInt ≠ 0 := by
      rw [hv] at htoken
      rcases htoken with ⟨_, ⟨⟩⟩ | ⟨_, ⟨⟩, hne⟩
      exact fun hzero => hne (Int32.toInt_inj.1 hzero)
    have hle : -2147483648 ≤ v.toInt := v.le_toInt
    have hsize : UInt32.size = 4294967296 := rfl
    refine ⟨n, v.toInt, hn, hwell, htext, hfloat, hv ▸ .int v, ?_, ?_, ?_⟩
    · omega
    · rw [hnegative, eq_comm, decide_eq_true_iff]
      omega
    · omega
  · have hv_eq : (v.toNat : Int) = wholeNumber n.toList := (hv ▸ hwhole).toNat_eq
    rw [hnegative, if_neg Bool.false_ne_true] at hvalue
    have hlt : v.toNat < UInt32.size := v.toNat_lt_size
    refine ⟨n, v.toNat, hn, hwell, htext, hfloat, hv ▸ .uint v, ?_, ?_, ?_⟩
    · omega
    · rw [hnegative, eq_comm, decide_eq_false_iff_not]
      omega
    · omega

/-- A fraction that is zero, or a suffix, behind a whole number makes it the float of this
number. -/
theorem Numeral.IsWhole.exists_spells {n : Numeral} {t s : String} {v : Int} (h : n.IsWhole t v)
    (fraction : Option (List Char)) (suffix : Option Char)
    (hpart : (fraction.isSome || suffix.isSome) = true)
    (hfraction : ∀ ds ∈ fraction, ∀ c ∈ ds, c.isDigit = true)
    (hzero : digitsValue (fraction.getD []) = 0) (hsuffix : ∀ c ∈ suffix, isSuffix c = true)
    (hs : s.toList = t.toList ++ (fraction.elim [] ('.' :: ·) ++ suffix.toList))
    (hroom : s.toList.length ≤ maxTokenLength) : ∃ n' : Numeral, n'.Spells s (.ofInt v) := by
  obtain ⟨⟨⟨sign, whole, fraction₀⟩, exponent, suffix₀⟩, hn, hwell, htext, hfloat, -, hmagnitude,
    hsign, hsize⟩ := n, h
  obtain ⟨⟨rfl, rfl⟩, rfl⟩ : (fraction₀ = none ∧ exponent = none) ∧ suffix₀ = none := by
    simpa [isFloat] using hfloat
  have hwell' : (⟨⟨sign, whole, fraction⟩, none, suffix⟩ : Numeral).isWellFormed = true := by
    simp_all [isWellFormed, Significand.digits]
  have hfloat' : (⟨⟨sign, whole, fraction⟩, none, suffix⟩ : Numeral).isFloat = true := by
    simpa [isFloat] using hpart
  refine ⟨⟨⟨sign, whole, fraction⟩, none, suffix⟩,
    ⟨⟨hn.significand.sign, hn.significand.whole, hfraction⟩, by simp, hsuffix⟩, hwell', ?_, hroom,
    ?_⟩
  · rw [hs, ← htext]
    simp [toList, Significand.toList]
  · rw [token_of_whole hwell' hfloat' rfl hzero hmagnitude hsign hsize]
    exact .float _

/-- All spellings of a whole number stand for one float. -/
theorem exists_spells {t : String} {token : Token} (hlength : t.length ≤ 61)
    (ht : (TokenStream.ofSource t .first).lexemes = [⟨token, t, .first⟩])
    (htoken : (∃ v, token = .uint v) ∨ ∃ v, token = .int v ∧ v ≠ 0) :
    ∃ x, ∀ s ∈ floatSpellings t, ∃ n : Numeral, n.Spells s x := by
  obtain ⟨n, v, h⟩ := exists_isWhole ht htoken
  have hroom (text : String) (htext : text.length ≤ 2) :
      (t ++ text).toList.length ≤ maxTokenLength := by
    rw [String.length_toList, String.length_append]
    unfold maxTokenLength
    omega
  refine ⟨.ofInt v, fun s hs => ?_⟩
  simp only [floatSpellings, List.mem_cons, List.not_mem_nil, or_false] at hs
  rcases hs with rfl | rfl | rfl | rfl
  · refine ⟨n, h.written, h.wellFormed, h.toList_eq, ?_, h.floatNumber⟩
    rw [String.length_toList]
    exact hlength.trans (by decide)
  · exact h.exists_spells (some []) none rfl (by simp) rfl (by simp)
      String.toList_append (hroom "." (by decide))
  · exact h.exists_spells (some ['0']) none rfl (by simp) (by decide) (by simp)
      String.toList_append (hroom ".0" (by decide))
  · exact h.exists_spells none (some 'f') rfl (by simp) rfl (by simp [Numeral.isSuffix])
      String.toList_append (hroom "f" (by decide))

/-! ## Texts behind a punctuation mark -/

/-- Behind a punctuation mark, and spaces, another text can be cut into lexemes apart. -/
theorem lexemesFrom_append_of_punctuation {base : Location} {offset : Nat} {cs : List Char}
    {front : List Lexeme} {mark : Lexeme} (h : lexemesFrom base offset cs = front ++ [mark])
    (hknown : mark.token ≠ .unknown) (hvalue : mark.token.isValue = false) (tail : List Char) :
    lexemesFrom base offset (cs ++ tail) =
      lexemesFrom base offset cs ++ lexemesFrom base (offset + byteLength cs) tail := by
  have hmem : mark ∈ lexemesFrom base offset cs :=
    h ▸ List.mem_append_right _ (List.mem_singleton.2 rfl)
  obtain ⟨c, hc, htext⟩ := exists_punctuation_of_mem hmem hknown hvalue
  obtain ⟨before, after, rfl, -, -, hafter⟩ := (lexemesFrom_tiles base offset cs).cut h
  obtain ⟨n, rfl⟩ : ∃ n, after = List.replicate n ' ' := by
    cases hafter with
    | spaces n => exact ⟨n, rfl⟩
  obtain ⟨token, hmark⟩ := Option.isSome_iff_exists.1 hc
  -- The mark delimits what stands before it from whatever stands behind it.
  have hcut (rest : List Char) : lexemesFrom base offset (before ++ c :: rest) =
      lexemesFrom base offset before ++
        ⟨token, String.singleton c, base.offset (offset + byteLength before)⟩ ::
          lexemesFrom base (offset + byteLength before + c.utf8Size) rest := by
    rw [lexemesFrom_append base offset before (by simp [isDelimiter, hmark]),
      lexemesFrom_punctuation base _ hmark]
  have hspaces := lexemesFrom_spaces base (offset + byteLength before + c.utf8Size) n []
  rw [List.append_nil, lexemesFrom] at hspaces
  have hlength : offset + byteLength (before ++ c :: List.replicate n ' ') =
      offset + byteLength before + c.utf8Size + n := by
    rw [byteLength_append, byteLength_cons, Tiles.byteLength_replicate_space]
    omega
  rw [htext, List.singleton_append, List.append_assoc, List.cons_append, hcut, hcut, hspaces,
    lexemesFrom_spaces, hlength, List.append_assoc, List.singleton_append]

/-! ## Sources -/

/-- A text that more lexemes stand behind has no NUL. -/
theorem nul_notMem_of_lexemes_append {a b : String} {base : Location} {l : Lexeme}
    {ls : List Lexeme} (h : (TokenStream.ofSource (a ++ b) base).lexemes =
      (TokenStream.ofSource a base).lexemes ++ l :: ls) : '\x00' ∉ a.toList := by
  intro hnul
  have hstops : readableText (a ++ b) = readableText a := by
    rw [readableText, String.toList_append, List.takeWhile_append, if_neg]
    · rfl
    · intro hlength
      have hall := (List.takeWhile_prefix _).eq_of_length hlength
      have hmem : '\x00' ∈ readableText a := by
        show '\x00' ∈ a.toList.takeWhile (· ≠ '\x00')
        rwa [hall]
      exact nul_notMem_readableText a hmem
  rw [TokenStream.ofSource, hstops] at h
  simp [TokenStream.ofSource] at h

/-- A text that spells a number has no NUL, so it is read to its end. -/
theorem Numeral.Spells.nul_notMem {n : Numeral} {s : String} {x : Binary32} (h : n.Spells s x) :
    '\x00' ∉ s.toList := by
  intro hnul
  have hscan : scan (n.toList ++ []) = (n, []) :=
    scan_toList_append h.written h.wellFormed (h.toList_eq ▸ h.room) (by simp [StartsWith])
  rw [List.append_nil, h.toList_eq] at hscan
  have hmem : '\x00' ∈ (scan s.toList).1.toList := by rwa [hscan, h.toList_eq]
  cases isPart_of_mem hmem

section
variable {before after s : String} {base : Location} {front : List Lexeme} {mark : Lexeme}
  (hbefore : (TokenStream.ofSource before base).lexemes = front ++ [mark])
  (hmark : mark.token = .equals) (hnul : '\x00' ∉ before.toList)
include hbefore hmark hnul

/-- The lexemes behind a text that ends with an equals sign are those of what stands there. -/
theorem lexemes_behind_equals (hs : '\x00' ∉ s.toList) :
    (TokenStream.ofSource (before ++ s ++ after) base).lexemes =
      (TokenStream.ofSource before base).lexemes ++
        lexemesFrom base before.utf8ByteSize (s.toList ++ readableText after) := by
  have hlexemes : lexemesFrom base 0 before.toList = front ++ [mark] := by
    rw [← readableText_eq_toList hnul]
    exact hbefore
  have hcut := lexemesFrom_append_of_punctuation hlexemes (by rw [hmark]; nofun)
    (by rw [hmark]; rfl) (s.toList ++ readableText after)
  rw [Nat.zero_add, byteLength_toList] at hcut
  show lexemesFrom base 0 (readableText (before ++ s ++ after)) =
    lexemesFrom base 0 (readableText before) ++ _
  rw [String.append_assoc, readableText_append_left hnul, readableText_append_left hs,
    readableText_eq_toList hnul]
  exact hcut

/-- Behind a value there is a delimiter, or nothing, if the tokens are those of a signature. -/
theorem isDelimiter_behind_spelling {value : Lexeme} {back : List Lexeme}
    (hvalue : (TokenStream.ofSource (before ++ value.text ++ after) base).lexemes =
      (TokenStream.ofSource before base).lexemes ++ value :: back)
    (hseparated : Separated
      ((TokenStream.ofSource (before ++ value.text ++ after) base).lexemes.map Lexeme.token))
    (hisValue : value.token.isValue = true) :
    ∀ c ∈ (readableText after).head?, isDelimiter c = true := by
  have hmem : value ∈ (TokenStream.ofSource (before ++ value.text ++ after) base).lexemes := by
    rw [hvalue]
    exact List.mem_append_right _ (List.mem_cons_self ..)
  have hbehind :=
    hvalue.symm.trans (lexemes_behind_equals hbefore hmark hnul (nul_notMem_text hmem))
  obtain ⟨_, _, -, -, -, -, rfl⟩ := scan_of_lexemesFrom_eq (List.append_cancel_left hbehind).symm
  exact isDelimiter_behind_value hvalue hseparated (lexemesFrom_tiles ..) hisValue

/-- The tokens of a text with a number behind an equals sign. -/
theorem tokens_of_spells {n : Numeral} {x : Binary32} (hn : n.Spells s x)
    (hafter : ∀ c ∈ (readableText after).head?, isDelimiter c = true) :
    (TokenStream.ofSource (before ++ s ++ after) base).lexemes.map Lexeme.token =
      (TokenStream.ofSource before base).lexemes.map Lexeme.token ++
        n.token :: (lexemesFrom base 0 (readableText after)).map Lexeme.token := by
  have hends : StartsWith (Numeral.endsBefore · = true) (readableText after) := by
    intro c hc
    rcases isDelimiter_iff.1 (hafter c hc) with rfl | rfl | rfl | rfl | rfl | rfl <;> rfl
  rw [lexemes_behind_equals hbefore hmark hnul hn.nul_notMem, List.map_append, ← hn.toList_eq,
    n.lexemesFrom_toList_append hn.written hn.wellFormed (hn.toList_eq ▸ hn.room) hends,
    List.map_cons, tokens_moved base base]

end

/-- A token that is written for a float is a value. -/
theorem Grammar.FloatNumber.isValue {t : Token} {x : Binary32} (h : FloatNumber [t] x) :
    t.isValue = true := by
  cases h <;> rfl

/-- Spellings of one whole number give the same float. Let `t` be the text of a whole number of 32
bits, other than a negative zero, that has no more than 61 characters. If a source is accepted where
one of the spellings of `t` is the value of `mipLODBias`, `minLOD` or `maxLOD`, then it is accepted
as the same signature with every other spelling in its place. -/
theorem float_spellings_agree (t : String) (token : Token) (hlength : t.length ≤ 61)
    (ht : (TokenStream.ofSource t .first).lexemes = [⟨token, t, .first⟩])
    (htoken : (∃ v, token = .uint v) ∨ ∃ v, token = .int v ∧ v ≠ 0)
    (before after s s' : String) (hs : s ∈ floatSpellings t) (hs' : s' ∈ floatSpellings t)
    (base : Location) (version : Version) (mode : BindingMode) (p : Parameter)
    (hp : p ∈ [.mipLodBias, .minLod, .maxLod]) (front : List Token)
    (hbefore : (TokenStream.ofSource before base).lexemes.map Lexeme.token =
      front ++ [.keyword (.parameter p), .equals])
    (value : Lexeme) (back : List Lexeme) (htext : value.text = s)
    (hvalue : (TokenStream.ofSource (before ++ s ++ after) base).lexemes =
      (TokenStream.ofSource before base).lexemes ++ value :: back)
    (d : VersionedSignature) (hparse : parse (before ++ s ++ after) base version mode = .ok d) :
    parse (before ++ s' ++ after) base version mode = .ok d := by
  subst htext
  obtain ⟨x, hx⟩ := exists_spells hlength ht htoken
  obtain ⟨n, hn⟩ := hx _ hs
  obtain ⟨n', hn'⟩ := hx _ hs'
  obtain ⟨named, mark, hlexemes, hmark⟩ : ∃ named mark,
      (TokenStream.ofSource before base).lexemes = named ++ [mark] ∧ mark.token = .equals := by
    rw [List.append_cons] at hbefore
    obtain ⟨named, last, hls, -, hlast⟩ := List.map_eq_append_iff.1 hbefore
    obtain ⟨mark, rfl, hmark⟩ := List.map_eq_singleton_iff.1 hlast
    exact ⟨named, mark, hls, hmark⟩
  have hnul : '\x00' ∉ before.toList := by
    rw [String.append_assoc] at hvalue
    exact nul_notMem_of_lexemes_append hvalue
  obtain ⟨signature, hread, hd⟩ := parse_eq_ok_iff.1 hparse
  rw [readSource_signature_eq_ok_iff] at hread
  have hmem : value ∈ (TokenStream.ofSource (before ++ value.text ++ after) base).lexemes := by
    rw [hvalue]
    exact List.mem_append_right _ (List.mem_cons_self ..)
  have hisValue : value.token.isValue = true := by
    rw [Numeral.token_eq_of_mem hmem hn.written hn.wellFormed hn.toList_eq]
    exact hn.floatNumber.isValue
  have hafter := isDelimiter_behind_spelling hlexemes hmark hnul hvalue
    (Signature.separated_of_written hread) hisValue
  refine parse_eq_ok_iff.2 ⟨signature, ?_, hd⟩
  rw [readSource_signature_eq_ok_iff]
  refine Signature.respects_written hread ?_
  rw [tokens_of_spells hlexemes hmark hnul hn hafter,
    tokens_of_spells hlexemes hmark hnul hn' hafter, hbefore, List.append_assoc, List.append_assoc]
  have hfloat : p.isFloat = true := by
    simp only [List.mem_cons, List.not_mem_nil, or_false] at hp
    rcases hp with rfl | rfl | rfl <;> rfl
  exact .append_left front (.value hfloat hn.floatNumber hn'.floatNumber (.refl _))

/-- A whole number between two floats, with a minus sign and zeros in front of it. -/
theorem float_spellings_agree_rounded :
    "-0016777217".length ≤ 61 ∧
      (TokenStream.ofSource "-0016777217" .first).lexemes =
        [⟨.int (-16777217), "-0016777217", .first⟩] ∧
      ∃ d, parse ("StaticSampler(s0, minLOD = " ++ "-0016777217" ++ ")") .first .v1_1 .unspecified =
          .ok d ∧
        parse ("StaticSampler(s0, minLOD = " ++ "-0016777217f" ++ ")") .first .v1_1 .unspecified =
          .ok d := by
  have hlexemes : (TokenStream.ofSource "-0016777217" .first).lexemes =
      [⟨.int (-16777217), "-0016777217", .first⟩] := by
    decide +kernel
  have hbefore : (TokenStream.ofSource "StaticSampler(s0, minLOD = " .first).lexemes.map
      Lexeme.token = [.keyword (.opening .staticSampler), .leftParen, .register ⟨.s, 0⟩, .comma] ++
        [.keyword (.parameter .minLod), .equals] := by
    decide +kernel
  have hvalue : (TokenStream.ofSource ("StaticSampler(s0, minLOD = " ++ "-0016777217" ++ ")")
      .first).lexemes = (TokenStream.ofSource "StaticSampler(s0, minLOD = " .first).lexemes ++
        [⟨.int (-16777217), "-0016777217", ⟨27⟩⟩, ⟨.rightParen, ")", ⟨38⟩⟩] := by
    decide +kernel
  have hparse : parse ("StaticSampler(s0, minLOD = " ++ "-0016777217" ++ ")") .first .v1_1
      .unspecified = .ok (((Signature.ofDeclarations (readSource
        ("StaticSampler(s0, minLOD = " ++ "-0016777217" ++ ")") .first .v1_1
          .unspecified).declarations).inMode .unspecified).asVersion .v1_1) :=
    parse_eq_ok_iff.2 ⟨_, signature_eq_ok_iff.2 ⟨by decide +kernel, rfl⟩, rfl⟩
  refine ⟨by decide, hlexemes, _, hparse, ?_⟩
  exact float_spellings_agree "-0016777217" _ (by decide) hlexemes (.inr ⟨_, rfl, by decide⟩)
    "StaticSampler(s0, minLOD = " ")" "-0016777217" "-0016777217f" (by decide) (by decide) .first
    .v1_1 .unspecified .minLod (by decide) _ hbefore _ _ rfl hvalue _ hparse

end RootSignature
