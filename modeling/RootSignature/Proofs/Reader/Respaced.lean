import RootSignature.Proofs.Error.Locality
import RootSignature.Proofs.Token.Delimiters
import RootSignature.Proofs.Token.Edited

/-!
# Spaces that are put between tokens

The text of a token is enough to read the token, also if the token is malformed or has been cut off
because it had become too long. So more spaces between the tokens of a source, also between tokens
that touched, leave the tokens as they are (`Edit.harmless_respace`), and the source is then read as
before (`parse_respaced`): errors stay at the token that they were at.
-/

namespace RootSignature

/-! ## Inserting spaces -/

/-- Spaces are put between tokens, before the first one and behind the last one. -/
def Edit.respace : Edit where
  Gap m n := m ≤ n
  Text l text := text = l.text.toList

/-- A text that has more spaces may follow where the text itself does. -/
theorem mayFollow_of_respaced {cs cs' : List Char} {ls : List Lexeme}
    (h : Edit.respace.Rewrites cs ls cs') : MayFollow cs cs' := by
  -- What a text starts with is delimited if spaces are put before it.
  have hspaces (n : Nat) (cs cs' : List Char) :
      MayFollow cs (List.replicate (n + 1) ' ' ++ cs') := by
    rintro c hc
    obtain rfl : ' ' = c := by simpa [List.replicate_succ] using hc
    exact .inl (by decide)
  induction h with
  | @spaces m n hgap =>
      cases n with
      | zero => exact mayFollow_of_delimiter _ (by simp)
      | succ n => simpa using hspaces n (List.replicate m ' ') []
  | @lexeme m n l ls text cs cs' hgap htext hrest ih =>
      cases n with
      | zero =>
          obtain rfl : m = 0 := Nat.le_zero.1 hgap
          obtain rfl : text = l.text.toList := htext
          exact ih.append_left l.text.toList
      | succ n => exact hspaces n _ _

/-- Spaces between tokens do not count for any of them. -/
theorem Edit.harmless_respace : Edit.respace.Harmless (fun _ _ => True) where
  gap _ _ := trivial
  text _ _ := trivial
  scan {_ c tail _ _ _ _} hc hcs hscan htext hrest :=
    ⟨c, tail, hc, htext.trans hcs,
      FirstToken.scan_eq_of_mayFollow hscan (mayFollow_of_respaced hrest)⟩

/-- The same error at lexemes that stand at the same place of two streams. -/
structure ParseError.Corresponds (s s' : TokenStream) (e e' : ParseError) : Prop where
  reason : e'.reason = e.reason
  width : e'.width = e.width
  place : ∃ i, e.location = (s.answer i).location ∧ e.width = (s.answer i).width ∧
    e'.location = (s'.answer i).location

section
variable {source source' : String} {base : Location}
  (h : Edit.respace.Rewrites (readableText source) (TokenStream.ofSource source base).lexemes
    (readableText source'))
include h

/-- All answers have the same texts, and behind the lexemes the end is answered in both. -/
theorem text_answer_of_respaced (base' : Location) (i : Nat) :
    ((TokenStream.ofSource source base).answer i).text =
      ((TokenStream.ofSource source' base').answer i).text := by
  have hpairs : List.Forall₂ (Edit.respace.Pair (fun _ _ => True) base base')
      (TokenStream.ofSource source base).lexemes (TokenStream.ofSource source' base').lexemes :=
    Edit.harmless_respace.lexemes h rfl trivial
  exact TokenStream.answer_of_forall₂ (R := fun l l' => l.text = l'.text)
    (hpairs.imp fun l l' hpair => (String.toList_injective hpair.text).symm) rfl i

/-- A source with more spaces is read alike, up to the locations of errors. -/
theorem parse_respaced (base' : Location) (version : Version) (mode : BindingMode) :
    (∀ d, parse source base version mode = .ok d → parse source' base' version mode = .ok d) ∧
      ∀ e, parse source base version mode = .error e →
        ∃ e', parse source' base' version mode = .error e' ∧
          e.Corresponds (.ofSource source base) (.ofSource source' base') e' := by
  have htexts := text_answer_of_respaced h base'
  -- The streams are compared beyond their last lexemes.
  have hlists := lists_upTo fun i (_ : i ≤ (TokenStream.ofSource source base).lexemes.length) =>
    htexts i
  have hclosed := closed_upTo (fun i _ => htexts i)
    (Nat.le_refl (TokenStream.ofSource source base).lexemes.length)
  refine ⟨fun d hd => ?_, fun e he => ?_⟩
  · exact parse_eq_ok_of_tokens_eq (hlists.tokens_eq hclosed).symm hd
  · rw [parse_eq_error_iff] at he
    obtain ⟨reason, l, l', ⟨-, htext, i, -, rfl, rfl⟩, rfl, hfailure⟩ :=
      (follows_readDeclarations (mode.dialect version) false hlists).failure hclosed he
    refine ⟨_, (parse_eq_error_iff ..).2 hfailure, ?_, ?_, i, rfl, rfl, rfl⟩
    · show reason.withFound _ = reason.withFound _
      rw [htext]
    · show String.utf8ByteSize _ = String.utf8ByteSize _
      rw [htext]

end

/-! ## Tokens alone -/

/-- The text of a lexeme of a source is a source that has this lexeme and no other. -/
theorem upToEnd_text {source : String} {base : Location} {l : Lexeme}
    (hl : l ∈ (TokenStream.ofSource source base).lexemes) (base' : Location) :
    (TokenStream.ofSource l.text base').upToEnd =
      [⟨l.token, l.text, base'⟩, .endAt (base'.offset l.width)] := by
  rw [TokenStream.upToEnd_ofSource, readableText_eq_toList (nul_notMem_text hl),
    lexemesFrom_text hl, Location.offset_zero, byteLength_toList]
  rfl

/-- Every token stands on its own. The text of a token, read alone, is this token and then the end.
And spaces that are put between the tokens of a source, also where tokens touched, change neither
the tokens nor their texts: the source is accepted as the same signature as before, or refused for
the same reason, with the same width, at the token that corresponds. -/
theorem tokens_stand_alone (source : String) (base : Location) :
    (∀ l ∈ (TokenStream.ofSource source base).lexemes, ∀ base' : Location,
      (TokenStream.ofSource l.text base').upToEnd =
        [⟨l.token, l.text, base'⟩, .endAt (base'.offset l.width)]) ∧
      ∀ (source' : String) (base' : Location),
        Edit.respace.Rewrites (readableText source) (TokenStream.ofSource source base).lexemes
          (readableText source') →
        (∀ i, ((TokenStream.ofSource source' base').answer i).token =
            ((TokenStream.ofSource source base).answer i).token ∧
          ((TokenStream.ofSource source' base').answer i).text =
            ((TokenStream.ofSource source base).answer i).text) ∧
        ∀ version mode,
          (∀ d, parse source base version mode = .ok d →
            parse source' base' version mode = .ok d) ∧
          ∀ e, parse source base version mode = .error e →
            ∃ e', parse source' base' version mode = .error e' ∧
              e.Corresponds (.ofSource source base) (.ofSource source' base') e' := by
  refine ⟨fun l hl => upToEnd_text hl, fun source' base' h => ⟨fun i => ?_, parse_respaced h base'⟩⟩
  have htext := text_answer_of_respaced h base' i
  exact ⟨(TokenStream.token_answer_eq_of_text_eq htext).symm, htext.symm⟩

/-- An exponent without digits touches a register. It is refused with spaces as it is without. -/
theorem tokens_stand_alone_malformed :
    Edit.respace.Rewrites (readableText "1e+t0") (TokenStream.ofSource "1e+t0" .first).lexemes
        (readableText " 1e+ t0") ∧
      (TokenStream.ofSource "1e+" .first).upToEnd =
        [⟨.unknown, "1e+", .first⟩, .endAt ⟨3⟩] ∧
      (∀ i, ((TokenStream.ofSource " 1e+ t0" .first).answer i).text =
        ((TokenStream.ofSource "1e+t0" .first).answer i).text) ∧
      parse "1e+t0" .first .v1_1 .unspecified =
        .error ⟨.unexpectedDeclaration "1e+", ⟨0⟩, 3⟩ ∧
      ∃ e', parse " 1e+ t0" .first .v1_1 .unspecified = .error e' ∧
        e'.reason = .unexpectedDeclaration "1e+" ∧ e'.width = 3 := by
  have hls : (TokenStream.ofSource "1e+t0" .first).lexemes =
      [⟨.unknown, "1e+", ⟨0⟩⟩, ⟨.register ⟨.t, 0⟩, "t0", ⟨3⟩⟩] := by
    decide +kernel
  have hrewrites : Edit.respace.Rewrites (readableText "1e+t0")
      (TokenStream.ofSource "1e+t0" .first).lexemes (readableText " 1e+ t0") := by
    have hlast : Edit.respace.Rewrites [] [] [] := .spaces (m := 0) (n := 0) (Nat.le_refl 0)
    have hboth := Edit.Rewrites.lexeme (m := 0) (n := 1) (l := ⟨.unknown, "1e+", ⟨0⟩⟩)
      (Nat.zero_le 1) rfl (.lexeme (m := 0) (n := 1) (l := ⟨.register ⟨.t, 0⟩, "t0", ⟨3⟩⟩)
        (Nat.zero_le 1) rfl hlast)
    rw [hls]
    exact hboth
  obtain ⟨halone, hspaces⟩ := tokens_stand_alone "1e+t0" .first
  obtain ⟨hsame, hparse⟩ := hspaces " 1e+ t0" .first hrewrites
  have he : parse "1e+t0" .first .v1_1 .unspecified =
      .error ⟨.unexpectedDeclaration "1e+", ⟨0⟩, 3⟩ := by
    rw [parse_eq_error_iff]
    decide +kernel
  obtain ⟨e', he', hcorresponds⟩ := (hparse .v1_1 .unspecified).2 _ he
  refine ⟨hrewrites, ?_, fun i => (hsame i).2, he, e', he', hcorresponds.reason,
    hcorresponds.width⟩
  exact halone ⟨.unknown, "1e+", ⟨0⟩⟩ (by rw [hls]; exact List.mem_cons_self ..) .first

end RootSignature
