import RootSignature.Proofs.Dialect.Unflagged
import RootSignature.Proofs.Reader.Lockstep
import RootSignature.Proofs.Token.Edited
import RootSignature.Proofs.Token.Letters

/-!
# Capitals in keywords and numbers

Keywords and numbers are the same tokens in capitals and in small letters, and they take the same
room (`Edit.harmless_recase`). So a source is read as before if letters in them are exchanged
(`parse_recased`): it is accepted as the same signature, or refused at the same place for the same
reason, which may quote the other letters.
-/

namespace RootSignature

/-! ## Exchanging letters -/

/-- Letters in keywords and numbers are exchanged for capitals or small letters. -/
def Edit.recase : Edit where
  Gap m n := n = m
  Text l text := text = l.text.toList ∨
    l.token.ignoresCase = true ∧ text.map Char.toLower = l.text.toList.map Char.toLower

/-- A text with other capitals is the same in small letters. -/
theorem Edit.toLower_of_recase {l : Lexeme} {text : List Char} (h : Edit.recase.Text l text) :
    text.map Char.toLower = l.text.toList.map Char.toLower :=
  h.elim (congrArg _) And.right

/-- The texts are the same in small letters. -/
theorem Edit.toLower_of_recased {cs cs' : List Char} {ls : List Lexeme}
    (h : Edit.recase.Rewrites cs ls cs') : cs'.map Char.toLower = cs.map Char.toLower := by
  induction h with
  | spaces hgap =>
      obtain rfl := hgap
      rfl
  | lexeme hgap htext _ ih =>
      obtain rfl := hgap
      simp only [List.map_append, ih, toLower_of_recase htext]

/-- Capitals do not change the number of bytes. -/
theorem byteLength_eq_of_toLower_eq {cs cs' : List Char}
    (h : cs'.map Char.toLower = cs.map Char.toLower) : byteLength cs' = byteLength cs := by
  rw [← byteLength_map_toLower, h, byteLength_map_toLower]

/-- Every token stays what it is and where it is. -/
theorem Edit.harmless_recase : Edit.recase.Harmless (fun offset offset' => offset' = offset) where
  gap {_ _ m n} hplace hgap := by
    obtain rfl := hplace
    obtain rfl : n = m := hgap
    rfl
  text hplace htext := by
    rw [hplace, byteLength_eq_of_toLower_eq (toLower_of_recase htext), byteLength_toList]
    rfl
  scan {l c tail text cs cs' ls} hc hcs hscan htext hrest := by
    have hspace : IgnoresCase fun c => decide (c = ' ') := ignoresCase_of_capitals (by decide)
    have hlower := toLower_of_recase htext
    rw [hcs] at hlower
    cases text with
    | nil => cases hlower
    | cons c' tail' =>
        refine ⟨c', tail', ?_, rfl, ?_⟩
        · rintro rfl
          have hc' := hspace c
          rw [← (List.cons_eq_cons.1 hlower).1] at hc'
          exact hc (of_decide_eq_true hc'.symm)
        · refine FirstToken.scan_eq_of_toLower_eq hscan hlower (toLower_of_recased hrest) ?_
          rw [← hcs]
          exact htext.imp id And.left

/-! ## Reading in step -/

/-- A lexeme and the same one in other letters. -/
structure Lexeme.Recased (l l' : Lexeme) : Prop where
  token : l'.token = l.token
  location : l'.location = l.location
  text : l'.text.toList.map Char.toLower = l.text.toList.map Char.toLower

/-- A lexeme with other capitals is as wide as it was. -/
theorem Lexeme.Recased.width {l l' : Lexeme} (h : l.Recased l') : l'.width = l.width := by
  rw [Lexeme.width, Lexeme.width, ← byteLength_toList, ← byteLength_toList,
    byteLength_eq_of_toLower_eq h.text]

/-- The same error, whose reason may quote a text in other letters. -/
structure ParseError.Recased (e e' : ParseError) : Prop where
  location : e'.location = e.location
  width : e'.width = e.width
  reason : ∃ reason found found', e.reason = Reason.withFound found reason ∧
    e'.reason = Reason.withFound found' reason ∧
    found'.toList.map Char.toLower = found.toList.map Char.toLower

/-- Lexemes are compared up to capitals. -/
def Pairing.recased (stop : Location) : Pairing where
  Pair := Lexeme.Recased
  token_eq h := h.token.symm
  stop := stop
  stop' := stop
  tail := []
  tail' := []

/-- Lists with other capitals are compared up to their ends. -/
theorem Pairing.closed_recased (stop : Location) : (recased stop).Closed :=
  ⟨rfl, rfl, rfl, rfl, rfl⟩

/-- Lexemes with other capitals go together one by one. -/
theorem Pairing.lists_recased (stop : Location) {ls ls' : List Lexeme}
    (h : List.Forall₂ Lexeme.Recased ls ls') : (recased stop).Lists ls ls' := by
  induction h with
  | nil => exact .tail
  | cons hpair _ ih => exact .cons hpair ih

section
variable {source source' : String} {base : Location}
  (h : Edit.recase.Rewrites (readableText source) (TokenStream.ofSource source base).lexemes
    (readableText source'))
include h

/-- A source with other capitals ends where it did. -/
theorem stop_of_recased :
    (TokenStream.ofSource source' base).stop = (TokenStream.ofSource source base).stop :=
  congrArg base.offset (byteLength_eq_of_toLower_eq (Edit.toLower_of_recased h))

/-- A source with other capitals has the same lexemes with other capitals. -/
theorem lexemes_of_recased : List.Forall₂ Lexeme.Recased
    (TokenStream.ofSource source base).lexemes (TokenStream.ofSource source' base).lexemes := by
  have hpairs : List.Forall₂
      (Edit.recase.Pair (fun offset offset' => offset' = offset) base base)
      (TokenStream.ofSource source base).lexemes (TokenStream.ofSource source' base).lexemes :=
    Edit.harmless_recase.lexemes h rfl rfl
  refine hpairs.imp fun l l' hpair => ?_
  obtain ⟨_, _, rfl, hlocation, hlocation'⟩ := hpair.location
  exact ⟨hpair.token, hlocation'.trans hlocation.symm, Edit.toLower_of_recase hpair.text⟩

/-- All answers are the same with other capitals, those at the end among them. -/
theorem answer_of_recased (i : Nat) :
    ((TokenStream.ofSource source base).answer i).Recased
      ((TokenStream.ofSource source' base).answer i) :=
  TokenStream.answer_of_forall₂ (lexemes_of_recased h)
    ⟨rfl, stop_of_recased h, rfl⟩ i

/-- A source in other letters is read alike. -/
theorem parse_recased (version : Version) (mode : BindingMode) :
    (∀ d, parse source base version mode = .ok d → parse source' base version mode = .ok d) ∧
      ∀ e, parse source base version mode = .error e →
        ∃ e', parse source' base version mode = .error e' ∧ e.Recased e' := by
  have hlists := Pairing.lists_recased (TokenStream.ofSource source base).stop
    (lexemes_of_recased h)
  refine ⟨fun d hd => ?_, fun e he => ?_⟩
  · exact parse_eq_ok_of_tokens_eq (hlists.tokens_eq (Pairing.closed_recased _)).symm hd
  · rw [parse_eq_error_iff] at he
    obtain ⟨reason, l, l', hpair, rfl, hfailure⟩ :=
      (follows_readDeclarations (mode.dialect version) false hlists).failure
        (Pairing.closed_recased _) he
    refine ⟨l'.refuse reason, (parse_eq_error_iff ..).2 ?_, hpair.location, hpair.width, reason,
      l.text, l'.text, rfl, rfl, hpair.text⟩
    show (readDeclarations (mode.dialect version) (TokenStream.ofSource source' base).stop false
      (TokenStream.ofSource source' base).lexemes).failure? = _
    rw [stop_of_recased h]
    exact hfailure

end

/-- Only registers tell capitals from small letters. If letters in keywords and numbers of a source
are exchanged, every token stays the same and at the same place, and takes the same room. So the
source is accepted as the same signature, or refused at the same place for the same reason, up to
the letters of a text that it quotes. And a lexeme is a register exactly if it is a small `t`, `u`,
`b` or `s` with the digits of a number of 32 bits behind it, which is then the number of the
register. -/
theorem only_registers_case_sensitive (source : String) (base : Location) :
    (∀ source' : String,
      Edit.recase.Rewrites (readableText source) (TokenStream.ofSource source base).lexemes
        (readableText source') →
      (∀ i, ((TokenStream.ofSource source' base).answer i).token =
          ((TokenStream.ofSource source base).answer i).token ∧
        ((TokenStream.ofSource source' base).answer i).location =
          ((TokenStream.ofSource source base).answer i).location ∧
        ((TokenStream.ofSource source' base).answer i).width =
          ((TokenStream.ofSource source base).answer i).width) ∧
      ∀ version mode,
        (∀ d, parse source base version mode = .ok d →
          parse source' base version mode = .ok d) ∧
        ∀ e, parse source base version mode = .error e →
          ∃ e', parse source' base version mode = .error e' ∧ e.Recased e') ∧
    ∀ l ∈ (TokenStream.ofSource source base).lexemes, ∀ r : Register,
      l.token = .register r ↔ ∃ digits, l.text.toList = r.registerClass.letter :: digits ∧
        digits ≠ [] ∧ (∀ d ∈ digits, d.isDigit = true) ∧ digitsValue digits ≤ 4294967295 ∧
        r.index.toNat = digitsValue digits := by
  refine ⟨fun source' h => ⟨fun i => ?_, parse_recased h⟩, fun l hl => token_eq_register_iff hl⟩
  have hanswer := answer_of_recased h i
  exact ⟨hanswer.token, hanswer.location, hanswer.width⟩

/-- Capitals in a keyword, as the mark of an exponent and as a suffix. The number is refused where
and why it is refused in small letters. -/
theorem only_registers_case_sensitive_number :
    Edit.recase.Rewrites (readableText "cbv 1e2f")
        (TokenStream.ofSource "cbv 1e2f" .first).lexemes (readableText "CbV 1E2F") ∧
      ((TokenStream.ofSource "CbV 1E2F" .first).answer 0).token = .keyword (.opening .cbv) ∧
      parse "cbv 1e2f" .first .v1_0 .localMode = .error ⟨.unexpectedToken "1e2f", ⟨4⟩, 4⟩ ∧
      ∃ e', parse "CbV 1E2F" .first .v1_0 .localMode = .error e' ∧
        (⟨.unexpectedToken "1e2f", ⟨4⟩, 4⟩ : ParseError).Recased e' := by
  have hls : (TokenStream.ofSource "cbv 1e2f" .first).lexemes =
      [⟨.keyword (.opening .cbv), "cbv", ⟨0⟩⟩, ⟨.float ⟨0x42C80000⟩, "1e2f", ⟨4⟩⟩] := by
    decide +kernel
  have hrewrites : Edit.recase.Rewrites (readableText "cbv 1e2f")
      (TokenStream.ofSource "cbv 1e2f" .first).lexemes (readableText "CbV 1E2F") := by
    have hkeyword : Edit.recase.Text ⟨.keyword (.opening .cbv), "cbv", ⟨0⟩⟩ "CbV".toList :=
      Or.inr ⟨rfl, by decide⟩
    have hnumber : Edit.recase.Text ⟨.float ⟨0x42C80000⟩, "1e2f", ⟨4⟩⟩ "1E2F".toList :=
      Or.inr ⟨rfl, by decide⟩
    have hlast : Edit.recase.Rewrites [] [] [] := .spaces (m := 0) (n := 0) rfl
    have hboth := Edit.Rewrites.lexeme (m := 0) (n := 0) rfl hkeyword
      (.lexeme (m := 1) (n := 1) rfl hnumber hlast)
    rw [hls]
    exact hboth
  obtain ⟨hcase, -⟩ := only_registers_case_sensitive "cbv 1e2f" .first
  obtain ⟨hsame, hparse⟩ := hcase "CbV 1E2F" hrewrites
  have hfirst : ((TokenStream.ofSource "cbv 1e2f" .first).answer 0).token =
      .keyword (.opening .cbv) := by
    rw [TokenStream.answer_eq, hls]
    rfl
  have he : parse "cbv 1e2f" .first .v1_0 .localMode =
      .error ⟨.unexpectedToken "1e2f", ⟨4⟩, 4⟩ := by
    rw [parse_eq_error_iff]
    decide +kernel
  exact ⟨hrewrites, (hsame 0).1.trans hfirst, he, (hparse .v1_0 .localMode).2 _ he⟩

end RootSignature
