import RootSignature.Proofs.Dialect.Unflagged
import RootSignature.Proofs.Reader.Lockstep
import RootSignature.Proofs.Token.Lookahead

/-!
# Errors are local

A source is refused at the first token that can not stand where it stands, and what follows this
token is not looked at. So two sources that have the same tokens up to it are refused at it alike
(`parse_error_local`).

Two streams with the same answers up to one of them are compared up to this answer, and no further
(`Pairing.upTo`, `lists_upTo`). They are then read in step. If the first is refused at an answer up
to there, it has not got to what is not compared, since lexemes stand one behind the other
(`raw_location_answer_lt`).
-/

namespace RootSignature

/-! ## The answers of a source -/

namespace TokenStream

variable {source source' : String} {base base' : Location} {i j : Nat}

/-- The end is answered behind the lexemes, and only there. -/
theorem token_answer_eq_eof_iff :
    ((ofSource source base).answer i).token = .eof ↔
      (ofSource source base).lexemes.length ≤ i := by
  rw [answer_eq]
  refine ⟨fun h => ?_, fun h => ?_⟩
  · by_contra hi
    rw [List.getElem?_eq_getElem (Nat.lt_of_not_le hi), Option.getD_some] at h
    exact (lexemesFrom_tiles base 0 (readableText source)).ne_eof (List.getElem_mem _) h
  · rw [List.getElem?_eq_none h]
    rfl

/-- An answer before the end is one of the lexemes. -/
theorem answer_mem_lexemes (h : ((ofSource source base).answer i).token ≠ .eof) :
    (ofSource source base).answer i ∈ (ofSource source base).lexemes := by
  have hi : i < (ofSource source base).lexemes.length :=
    Nat.lt_of_not_le fun hle => h (token_answer_eq_eof_iff.2 hle)
  rw [answer_eq, List.getElem?_eq_getElem hi, Option.getD_some]
  exact List.getElem_mem hi

/-- The answers from a lexeme on are this lexeme and those behind it. -/
theorem drop_eq_answer_cons (s : TokenStream) (h : i < s.lexemes.length) :
    s.lexemes.drop i = s.answer i :: s.lexemes.drop (i + 1) := by
  rw [answer_eq, List.getElem?_eq_getElem h, Option.getD_some]
  exact List.drop_eq_getElem_cons h

/-- What stands behind an answer, or is the end, is located behind it. -/
theorem raw_location_lt_of_mem_drop (hbase : base ≠ .unknown)
    (hroom : base.HasRoomFor (readableText source))
    (hi : i < (ofSource source base).lexemes.length) {m : Lexeme}
    (hm : m ∈ (ofSource source base).lexemes.drop (i + 1) ++
      [.endAt (ofSource source base).stop]) :
    ((ofSource source base).answer i).location.raw < m.location.raw := by
  have hsuffix : (ofSource source base).answer i :: (ofSource source base).lexemes.drop (i + 1) <:+
      (ofSource source base).lexemes := by
    rw [← drop_eq_answer_cons _ hi]
    exact List.drop_suffix i _
  exact (raw_location_behind hbase hroom hsuffix hm).1

/-- Later answers are located behind earlier ones. -/
theorem raw_location_answer_lt (hbase : base ≠ .unknown)
    (hroom : base.HasRoomFor (readableText source)) (hij : i < j)
    (hi : ((ofSource source base).answer i).token ≠ .eof) :
    ((ofSource source base).answer i).location.raw <
      ((ofSource source base).answer j).location.raw := by
  have hi : i < (ofSource source base).lexemes.length :=
    Nat.lt_of_not_le fun hle => hi (token_answer_eq_eof_iff.2 hle)
  refine raw_location_lt_of_mem_drop hbase hroom hi ?_
  by_cases hj : j < (ofSource source base).lexemes.length
  · have hmem : (ofSource source base).answer j ∈ (ofSource source base).lexemes.drop j := by
      rw [drop_eq_answer_cons _ hj]
      exact List.mem_cons_self ..
    have hsuffix := List.drop_suffix_drop_left (ofSource source base).lexemes hij
    exact List.mem_append_left _ (hsuffix.mem hmem)
  · rw [answer_eq, List.getElem?_eq_none (Nat.le_of_not_lt hj), Option.getD_none]
    exact List.mem_append_right _ (List.mem_singleton.2 rfl)

/-- Answers of one text are of one token: only the end has no text. -/
theorem token_answer_eq_of_text_eq
    (h : ((ofSource source base).answer i).text = ((ofSource source' base').answer i).text) :
    ((ofSource source base).answer i).token = ((ofSource source' base').answer i).token := by
  -- The end has the empty text, and no lexeme has it.
  have hend {source : String} {base : Location} :
      ((ofSource source base).answer i).token = .eof ↔
        ((ofSource source base).answer i).text = "" := by
    refine ⟨fun hi => ?_, fun htext => ?_⟩
    · rw [answer_eq, List.getElem?_eq_none (token_answer_eq_eof_iff.1 hi)]
      rfl
    · by_contra hi
      exact (lexemesFrom_tiles base 0 (readableText source)).text_ne_empty
        (answer_mem_lexemes hi) htext
  by_cases hi : ((ofSource source base).answer i).token = .eof
  · rw [hi, hend.2 (h.symm.trans (hend.1 hi))]
  · have hi' : ((ofSource source' base').answer i).token ≠ .eof :=
      fun hi' => hi (hend.2 (h.trans (hend.1 hi')))
    exact token_eq_of_text_eq (answer_mem_lexemes hi) (answer_mem_lexemes hi') h

end TokenStream

/-! ## Streams with the same answers up to one of them -/

/-- Two streams are compared up to an answer, and not behind it. -/
def Pairing.upTo (s s' : TokenStream) (n : Nat) : Pairing where
  Pair l l' := l.token = l'.token ∧ l.text = l'.text ∧
    ∃ i ≤ n, s.answer i = l ∧ s'.answer i = l'
  token_eq h := h.1
  stop := s.stop
  stop' := s'.stop
  tail := s.lexemes.drop (n + 1)
  tail' := s'.lexemes.drop (n + 1)

section
variable {source source' : String} {base base' : Location} {n : Nat}
  (h : ∀ i ≤ n, ((TokenStream.ofSource source base).answer i).text =
    ((TokenStream.ofSource source' base').answer i).text)
include h

/-- The end of both streams is answered at the same time, if that is not behind what is
compared. -/
theorem length_le_iff_of_texts_eq {i : Nat} (hi : i ≤ n) :
    (TokenStream.ofSource source base).lexemes.length ≤ i ↔
      (TokenStream.ofSource source' base').lexemes.length ≤ i := by
  rw [← TokenStream.token_answer_eq_eof_iff, ← TokenStream.token_answer_eq_eof_iff,
    TokenStream.token_answer_eq_of_text_eq (h i hi)]

/-- Up to the common token, the answers of the two streams are paired. -/
theorem pair_upTo {i : Nat} (hi : i ≤ n) :
    (Pairing.upTo (.ofSource source base) (.ofSource source' base') n).Pair
      ((TokenStream.ofSource source base).answer i)
      ((TokenStream.ofSource source' base').answer i) :=
  ⟨TokenStream.token_answer_eq_of_text_eq (h i hi), h i hi, i, hi, rfl, rfl⟩

/-- The lexemes go together up to the answer. -/
theorem lists_upTo :
    (Pairing.upTo (.ofSource source base) (.ofSource source' base') n).Lists
      (TokenStream.ofSource source base).lexemes (TokenStream.ofSource source' base').lexemes := by
  -- By induction on the number of answers that are still compared.
  have hfrom (k i : Nat) (hki : i + k = n + 1) :
      (Pairing.upTo (.ofSource source base) (.ofSource source' base') n).Lists
        ((TokenStream.ofSource source base).lexemes.drop i)
        ((TokenStream.ofSource source' base').lexemes.drop i) := by
    induction k generalizing i with
    | zero =>
        obtain rfl : i = n + 1 := hki
        exact .tail
    | succ k ih =>
        have hi : i ≤ n := by omega
        have hrest := ih (i + 1) (by omega)
        by_cases hlength : (TokenStream.ofSource source base).lexemes.length ≤ i
        · -- Both streams have ended, and nothing is left of either.
          have hlength' := (length_le_iff_of_texts_eq h hi).1 hlength
          rw [List.drop_eq_nil_of_le (Nat.le_succ_of_le hlength),
            List.drop_eq_nil_of_le (Nat.le_succ_of_le hlength')] at hrest
          rw [List.drop_eq_nil_of_le hlength, List.drop_eq_nil_of_le hlength']
          exact hrest
        · have hlength' := mt (length_le_iff_of_texts_eq h hi).2 hlength
          rw [TokenStream.drop_eq_answer_cons _ (Nat.lt_of_not_le hlength),
            TokenStream.drop_eq_answer_cons _ (Nat.lt_of_not_le hlength')]
          exact .cons (pair_upTo h hi) hrest
  exact hfrom (n + 1) 0 (Nat.zero_add _)

/-- Streams that end before the comparison does are compared up to their ends. -/
theorem closed_upTo (hn : (TokenStream.ofSource source base).lexemes.length ≤ n) :
    (Pairing.upTo (.ofSource source base) (.ofSource source' base') n).Closed := by
  have hn' := (length_le_iff_of_texts_eq h (Nat.le_refl n)).1 hn
  have hpair := pair_upTo h (Nat.le_refl n)
  rw [TokenStream.answer_eq, TokenStream.answer_eq, List.getElem?_eq_none hn,
    List.getElem?_eq_none hn'] at hpair
  exact ⟨List.drop_eq_nil_of_le (Nat.le_succ_of_le hn),
    List.drop_eq_nil_of_le (Nat.le_succ_of_le hn'), hpair⟩

end

/-- Nothing behind the token that is refused counts. If a source is refused at one of its tokens, or
at its end, then every source that has the same tokens up to this one is refused at it too, for the
same reason and with the same width. It is enough that the tokens have the same texts. So that the
location of the error tells the token, there has to be a number for every location of the source. -/
theorem parse_error_local (source source' : String) (base base' : Location) (version : Version)
    (mode : BindingMode) (e : ParseError) (n : Nat) (hbase : base ≠ .unknown)
    (hroom : base.HasRoomFor (readableText source))
    (he : parse source base version mode = .error e)
    (hlocation : e.location = ((TokenStream.ofSource source base).answer n).location)
    (hbefore : ∀ i < n, ((TokenStream.ofSource source base).answer i).token ≠ .eof)
    (hsame : ∀ i ≤ n, ((TokenStream.ofSource source base).answer i).text =
      ((TokenStream.ofSource source' base').answer i).text) :
    (∀ i < n, ((TokenStream.ofSource source' base').answer i).token ≠ .eof) ∧
      ∃ e', parse source' base' version mode = .error e' ∧
        e'.reason = e.reason ∧ e'.width = e.width ∧
        e'.location = ((TokenStream.ofSource source' base').answer n).location ∧
        e'.width = ((TokenStream.ofSource source' base').answer n).width := by
  refine ⟨fun i hi => ?_, ?_⟩
  · rw [← TokenStream.token_answer_eq_of_text_eq (hsame i (Nat.le_of_lt hi))]
    exact hbefore i hi
  have hfollows : (Pairing.upTo (.ofSource source base) (.ofSource source' base') n).ReadingFollows
      (readSource source base version mode) (readSource source' base' version mode) :=
    follows_readDeclarations (mode.dialect version) false (lists_upTo hsame)
  rw [parse_eq_error_iff] at he
  generalize hreading : readSource source base version mode = reading at hfollows he
  generalize hreading' : readSource source' base' version mode = reading' at hfollows
  cases hfollows with
  | ok hrest => cases he
  | @error ds reason l l' rest rest' hpair hrest =>
      cases he
      obtain ⟨-, htext, i, hi, rfl, rfl⟩ := hpair
      -- No answer before this one is located where it is.
      obtain rfl : i = n := by
        refine Nat.le_antisymm hi (Nat.le_of_not_lt fun hlt => ?_)
        have hlt := TokenStream.raw_location_answer_lt hbase hroom hlt (hbefore i hlt)
        rw [← hlocation] at hlt
        exact Nat.lt_irrefl _ hlt
      refine ⟨_, (parse_eq_error_iff ..).2 (by rw [hreading']), ?_, ?_, rfl, rfl⟩
      · show reason.withFound _ = reason.withFound _
        rw [htext]
      · show String.utf8ByteSize _ = String.utf8ByteSize _
        rw [htext]
  | escaped hopen hwithin =>
      have hn : n < (TokenStream.ofSource source base).lexemes.length :=
        Nat.lt_of_not_le fun hle => hopen (closed_upTo hsame hle)
      obtain ⟨reason, m, hm, rfl⟩ := hwithin e he
      have hlt := TokenStream.raw_location_lt_of_mem_drop hbase hroom hn hm
      rw [← hlocation] at hlt
      exact absurd hlt (Nat.lt_irrefl _)

/-- A register of the wrong class is refused as the third token, whatever follows it and however the
tokens are spaced. -/
theorem parse_error_local_register :
    Location.first.HasRoomFor (readableText "CBV(t0)") ∧
      parse "CBV(t0)" .first .v1_0 .localMode =
        .error ⟨.incorrectRegisterClass "t0" .b, ⟨4⟩, 2⟩ ∧
      (∀ i < 2, ((TokenStream.ofSource "CBV(t0)" .first).answer i).token ≠ .eof) ∧
      (∀ i ≤ 2, ((TokenStream.ofSource "CBV(t0)" .first).answer i).text =
        ((TokenStream.ofSource " CBV ( t0, t0 ⚠" ⟨100⟩).answer i).text) ∧
      ∃ e', parse " CBV ( t0, t0 ⚠" ⟨100⟩ .v1_0 .localMode = .error e' ∧
        e'.reason = .incorrectRegisterClass "t0" .b ∧ e'.width = 2 ∧ e'.location = ⟨107⟩ := by
  have hroom : Location.first.HasRoomFor (readableText "CBV(t0)") := .inr (by decide)
  have he : parse "CBV(t0)" .first .v1_0 .localMode =
      .error ⟨.incorrectRegisterClass "t0" .b, ⟨4⟩, 2⟩ := by
    rw [parse_eq_error_iff]
    decide +kernel
  have hbefore : ∀ i < 2, ((TokenStream.ofSource "CBV(t0)" .first).answer i).token ≠ .eof := by
    decide +kernel
  have hsame : ∀ i ≤ 2, ((TokenStream.ofSource "CBV(t0)" .first).answer i).text =
      ((TokenStream.ofSource " CBV ( t0, t0 ⚠" ⟨100⟩).answer i).text := by
    decide +kernel
  have hlocation : (⟨4⟩ : Location) =
      ((TokenStream.ofSource "CBV(t0)" .first).answer 2).location := by
    decide +kernel
  have hlocation' : ((TokenStream.ofSource " CBV ( t0, t0 ⚠" ⟨100⟩).answer 2).location = ⟨107⟩ := by
    decide +kernel
  obtain ⟨-, e', he', hreason, hwidth, hplace, -⟩ :=
    parse_error_local "CBV(t0)" " CBV ( t0, t0 ⚠" .first ⟨100⟩ .v1_0 .localMode _ 2 (by decide)
      hroom he hlocation hbefore hsame
  exact ⟨hroom, he, hbefore, hsame, e', he', hreason, hwidth, hplace.trans hlocation'⟩

end RootSignature
