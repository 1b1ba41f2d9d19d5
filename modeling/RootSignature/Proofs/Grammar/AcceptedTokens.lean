import RootSignature.Proofs.Dialect.Unflagged
import RootSignature.Proofs.Token.Spacing

/-!
# The tokens of accepted sources

An accepted source is written by the grammar, so its tokens are known and there is a punctuation
mark between any two values (`Signature.separated_of_written`). This excludes what the length limit
of tokens could do unnoticed: a token that has been cut off there is followed at once by the first
character of its remainder (`IsCutOff`), and never by a delimiter. It also makes spaces idle
(`tokens_filter_spaces`).
-/

namespace RootSignature

/-- A text without its spaces is read up to the same point. -/
theorem readableText_filter_spaces (source : String) :
    readableText (String.ofList (source.toList.filter (· ≠ ' '))) =
      (readableText source).filter (· ≠ ' ') := by
  rw [readableText, readableText, String.toList_ofList]
  induction source.toList with
  | nil => rfl
  | cons c cs ih =>
      by_cases hspace : c = ' '
      · subst hspace
        simpa using ih
      · by_cases hnul : c = '\x00'
        · simp [hnul]
        · simpa [hspace, hnul] using ih

/-- The tokens of an accepted source are separated. -/
theorem separated_of_parse {source : String} {base : Location} {version : Version}
    {mode : BindingMode} {d : VersionedSignature} (h : parse source base version mode = .ok d) :
    Separated ((lexemesFrom base 0 (readableText source)).map Lexeme.token) := by
  obtain ⟨s, hread, -⟩ := parse_eq_ok_iff.1 h
  exact Signature.separated_of_written ((readSource_signature_eq_ok_iff ..).1 hread)

/-- A text is as long as a token can be without being cut off, and what stands behind it begins with
a character that a run of digits or a word would have gone on with. -/
def IsCutOff (text after : List Char) : Prop :=
  maxTokenLength ≤ text.length ∧ ∃ c ∈ after.head?, Word.continuesWith c = true

/-- Nothing is cut off before a delimiter. -/
theorem not_isCutOff {text after : List Char} (h : ∀ c ∈ after.head?, isDelimiter c = true) :
    ¬ IsCutOff text after := by
  rintro ⟨-, c, hc, hcontinues⟩
  rcases isDelimiter_iff.1 (h c hc) with rfl | rfl | rfl | rfl | rfl | rfl <;> cases hcontinues

/-- In an accepted source all tokens are known, no two values stand side by side, and so no token
has been cut off at the length limit; what is read of the source is ASCII, and without its spaces it
is accepted as the same signature. -/
theorem parse_ok_tokens (source : String) (base : Location) (version : Version)
    (mode : BindingMode) (d : VersionedSignature)
    (h : parse source base version mode = .ok d) :
    (∀ l ∈ (TokenStream.ofSource source base).lexemes, l.token ≠ .unknown) ∧
      (∀ front l m back, (TokenStream.ofSource source base).lexemes = front ++ l :: m :: back →
        ¬ (l.token.isValue ∧ m.token.isValue)) ∧
      (∀ front l back, (TokenStream.ofSource source base).lexemes = front ++ l :: back →
        ∃ before after, readableText source = before ++ (l.text.toList ++ after) ∧
          Tiles base 0 before front ∧ l.location = base.offset (byteLength before) ∧
          (l.token.isValue → ∀ c ∈ after.head?, isDelimiter c = true) ∧
          ¬ IsCutOff l.text.toList after) ∧
      (∀ c ∈ readableText source, c.toNat < 128) ∧
      parse (String.ofList (source.toList.filter (· ≠ ' '))) base version mode = .ok d := by
  have hseparated := separated_of_parse h
  have hknown (l : Lexeme) (hl : l ∈ lexemesFrom base 0 (readableText source)) :
      l.token ≠ .unknown :=
    hseparated.known l.token (List.mem_map_of_mem hl)
  refine ⟨hknown, fun front l m back hls => ?_, fun front l back hls => ?_,
    fun c hc => toNat_lt_of_mem hknown hc, ?_⟩
  · change lexemesFrom base 0 (readableText source) = _ at hls
    rw [hls, List.map_append] at hseparated
    rintro ⟨hl, hm⟩
    have hmark := (hseparated.right.behind_value hl m.token rfl).2
    exact absurd hm (by simp [hmark])
  · change lexemesFrom base 0 (readableText source) = _ at hls
    obtain ⟨before, after, htext, hfront, hloc, hback⟩ :=
      (lexemesFrom_tiles base 0 (readableText source)).cut hls
    have hmem : l ∈ lexemesFrom base 0 (readableText source) := by
      rw [hls]
      exact List.mem_append_right front (List.mem_cons_self ..)
    have hafter := isDelimiter_behind_value hls hseparated hback
    refine ⟨before, after, htext, hfront, by rw [hloc, Nat.zero_add], hafter, ?_⟩
    cases hvalue : l.token.isValue with
    | true => exact not_isCutOff (hafter hvalue)
    | false =>
        obtain ⟨c, -, hc⟩ := exists_punctuation_of_mem hmem (hknown l hmem) hvalue
        rintro ⟨hlength, -⟩
        simp [hc, maxTokenLength] at hlength
  · refine parse_eq_ok_of_tokens_eq ?_ h
    show (lexemesFrom base 0 _).map Lexeme.token = (lexemesFrom base 0 _).map Lexeme.token
    rw [readableText_filter_spaces]
    exact tokens_filter_spaces base 0 0 (readableText source) hseparated

/-- A resource view with spaces in it, and without. -/
theorem parse_ok_tokens_srv :
    parse "SRV( t3, space = 1 )" .first .v1_1 .unspecified =
        .ok (.v1_1 ⟨∅, [⟨.descriptor ⟨.srv, 3, 1, ∅⟩, .all⟩], []⟩) ∧
      parse "SRV(t3,space=1)" .first .v1_1 .unspecified =
        .ok (.v1_1 ⟨∅, [⟨.descriptor ⟨.srv, 3, 1, ∅⟩, .all⟩], []⟩) := by
  have hparse : parse "SRV( t3, space = 1 )" .first .v1_1 .unspecified =
      .ok (.v1_1 ⟨∅, [⟨.descriptor ⟨.srv, 3, 1, ∅⟩, .all⟩], []⟩) := by
    rw [parse_eq_ok_iff]
    exact ⟨_, signature_eq_ok_iff.2 ⟨by decide +kernel, by decide +kernel⟩, rfl⟩
  obtain ⟨-, -, -, -, hspaces⟩ := parse_ok_tokens _ _ _ _ _ hparse
  exact ⟨hparse, hspaces⟩

end RootSignature
