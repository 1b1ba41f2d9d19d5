import RootSignature.Proofs.Reader.Halting
import RootSignature.Proofs.Token.Lookahead

/-!
# Going on after an error

A parser that is asked again and again has no memory but its place in the source. `Cut.stream` is
the stream of a new parser on the end of a source, and one attempt to read a signature leads from
such a stream to another one (`exists_leaves`). Where the text that is left begins is told by the
answer (`Leaves`): at the lexeme that has been refused, or right behind it.

`attempts_resume` follows this over any number of attempts. It supposes that all locations of the
source are numbers that locations can be, as they are where sources are loaded.
-/

namespace RootSignature

open Reader

variable {dialect : Dialect} {base : Location}

/-! ## Cutting a text in two -/

/-- Only spaces have no lexemes. -/
theorem lexemesFrom_eq_nil_iff {offset : Nat} {cs : List Char} :
    lexemesFrom base offset cs = [] ↔ ∀ c ∈ cs, c = ' ' := by
  fun_induction lexemesFrom base offset cs with
  | case1 offset => simp
  | case2 offset cs ih => simpa using ih
  | case3 offset c cs hc => simp [hc]

/-- A list of lexemes that ends the lexemes of a text begins with a lexeme of the text, or with its
end. From there on the text has just these lexemes, and behind that lexeme the ones after it. -/
theorem lexemesFrom_cut {offset : Nat} {cs : List Char} {front back : List Lexeme} {stop : Location}
    (h : lexemesFrom base offset cs = front ++ back)
    (hstop : stop = base.offset (offset + byteLength cs)) :
    ∃ before after, cs = before ++ ((head stop back).text.toList ++ after) ∧
      (head stop back).location = base.offset (offset + byteLength before) ∧
      lexemesFrom base (offset + byteLength before) ((head stop back).text.toList ++ after) =
        back ∧
      lexemesFrom base (offset + byteLength (before ++ (head stop back).text.toList)) after =
        back.tail := by
  fun_induction lexemesFrom base offset cs generalizing front with
  | case1 offset =>
      obtain ⟨rfl, rfl⟩ := List.nil_eq_append_iff.1 h
      exact ⟨[], [], rfl, hstop, by simp [Lexeme.endAt, lexemesFrom], by simp [lexemesFrom]⟩
  | case2 offset cs =>
      rename_i ih
      have hspace : (' ' : Char).utf8Size = 1 := rfl
      rw [byteLength_cons, hspace, ← Nat.add_assoc] at hstop
      obtain ⟨before, after, htext, hlocation, hback, htail⟩ := ih h hstop
      refine ⟨' ' :: before, after, ?_, ?_, ?_, ?_⟩
      · rw [htext, List.cons_append]
      · rw [hlocation, byteLength_cons, hspace, Nat.add_assoc]
      · rw [byteLength_cons, hspace, ← Nat.add_assoc]
        exact hback
      · rw [List.cons_append, byteLength_cons, hspace, ← Nat.add_assoc]
        exact htail
  | case3 offset c cs hc first =>
      rename_i ih
      have hcs : first.text ++ first.rest = c :: cs := FirstToken.text_append_rest c cs
      have hfrom : lexemesFrom base offset (c :: cs) =
          ⟨first.token, String.ofList first.text, base.offset offset⟩ ::
            lexemesFrom base (offset + byteLength first.text) first.rest :=
        lexemesFrom_of_scan base offset hc rfl
      clear_value first
      cases front with
      | nil =>
          subst h
          refine ⟨[], first.rest, ?_, rfl, ?_, ?_⟩
          · simp [hcs]
          · simpa [hcs] using hfrom
          · simp
      | cons l front =>
          rw [← hcs, byteLength_append, ← Nat.add_assoc] at hstop
          obtain ⟨before, after, htext, hlocation, hback, htail⟩ := ih (List.cons.inj h).2 hstop
          refine ⟨first.text ++ before, after, ?_, ?_, ?_, ?_⟩
          · rw [← hcs, htext, List.append_assoc]
          · rw [hlocation, byteLength_append, Nat.add_assoc]
          · rw [byteLength_append, ← Nat.add_assoc]
            exact hback
          · rw [List.append_assoc, byteLength_append, ← Nat.add_assoc]
            exact htail

/-! ## What is left of a source -/

/-- A text cut in two: what has been consumed of it, and what is left. -/
structure Cut (text : List Char) where
  /-- What has been consumed. -/
  consumed : List Char
  /-- What is left. -/
  suffix : List Char
  /-- The two parts make up the text. -/
  append : consumed ++ suffix = text

/-- The lexemes at a moved base are the same as those behind so many bytes. -/
theorem lexemesFrom_offset {n : Nat} {cs : List Char}
    (h : base = .unknown ∨ base.offset n ≠ .unknown) (offset : Nat) :
    lexemesFrom (base.offset n) offset cs = lexemesFrom base (n + offset) cs := by
  fun_induction lexemesFrom (base.offset n) offset cs with
  | case1 offset => rw [lexemesFrom]
  | case2 offset cs ih => rw [ih, lexemesFrom_space, Nat.add_assoc]
  | case3 offset c cs hc first ih =>
      rw [ih, Location.offset_offset h, ← Nat.add_assoc]
      exact (lexemesFrom_of_scan base (n + offset) hc rfl).symm

namespace Cut

variable {text : List Char}

/-- Nothing has been consumed. -/
def start (text : List Char) : Cut text := ⟨[], text, rfl⟩

/-- The stream of a new parser on what is left, where that begins. -/
def stream (base : Location) (cut : Cut text) : TokenStream :=
  .ofSource (String.ofList cut.suffix) (base.offset (byteLength cut.consumed))

/-- What a new parser reads is what the old one would have read. -/
theorem stream_eq (hnul : '\x00' ∉ text) (hroom : base.HasRoomFor text) (cut : Cut text) :
    cut.stream base = ⟨lexemesFrom base (byteLength cut.consumed) cut.suffix,
      base.offset (byteLength text)⟩ := by
  obtain ⟨consumed, suffix, rfl⟩ := cut
  have hsuffix : '\x00' ∉ (String.ofList suffix).toList := by
    rw [String.toList_ofList]
    exact fun hmem => hnul (List.mem_append_right _ hmem)
  rw [stream, TokenStream.ofSource, readableText_eq_toList hsuffix, String.toList_ofList,
    byteLength_append]
  dsimp only
  by_cases hmoves : base = .unknown ∨ base.offset (byteLength consumed) ≠ .unknown
  · rw [lexemesFrom_offset hmoves, Location.offset_offset hmoves, Nat.add_zero]
  · -- The text that has been consumed leads up to the last number of all, so that nothing is left.
    obtain ⟨hbase, hlast⟩ := not_or.1 hmoves
    have hle := hroom.resolve_left hbase
    rw [byteLength_append] at hle
    have hraw : base.raw + byteLength consumed = Location.unknownRaw := by
      rw [← Location.raw_offset_of_le hbase (by omega), not_not.1 hlast]
      rfl
    have hlength := length_le_byteLength suffix
    obtain rfl : suffix = [] := List.length_eq_zero_iff.1 (by omega)
    simp [lexemesFrom]

end Cut

/-! ## One attempt -/

section
variable {text : List Char}

/-- What the answer of a new parser on what is left of a text tells about what it leaves in turn. A
signature leaves nothing. An error is about a lexeme, or about the end, with some lexemes before it,
and leaves what starts with the text of that lexeme, if it has been noticed ahead, or else what is
behind it. -/
inductive Leaves (base : Location) (cut : Cut text) :
    Except ParseError SignatureV1_1 → Cut text → Prop
  | ok {s : SignatureV1_1} {cut' : Cut text} : cut'.suffix = [] → Leaves base cut (.ok s) cut'
  | error {reason : Reason} {l : Lexeme} {front back : List Lexeme} {before after : List Char}
      {cut' : Cut text} :
      (cut.stream base).lexemes = front ++ back →
      l = back.headD (.endAt (cut.stream base).stop) →
      cut.suffix = before ++ (l.text.toList ++ after) →
      l.location = base.offset (byteLength (cut.consumed ++ before)) →
      lexemesFrom base (byteLength (cut.consumed ++ before)) (l.text.toList ++ after) = back →
      cut'.suffix = (if reason.isNoticedAhead front then l.text.toList ++ after else after) →
      Leaves base cut (.error (.atLexeme reason l)) cut'

/-- An attempt by a new parser leaves a new parser on what it has not consumed. -/
theorem exists_leaves (dialect : Dialect) (hnul : '\x00' ∉ text) (hroom : base.HasRoomFor text)
    (cut : Cut text) :
    ∃ cut' : Cut text, ((cut.stream base).readSignature dialect).2 = cut'.stream base ∧
      Leaves base cut ((cut.stream base).readSignature dialect).1 cut' := by
  have hstream := Cut.stream_eq hnul hroom
  cases hfailure : ((cut.stream base).readDeclarations dialect).failure? with
  | none =>
      have hrest : ((cut.stream base).readDeclarations dialect).rest = [] :=
        rest_of_readDeclarations hfailure
      refine ⟨⟨text, [], List.append_nil _⟩, ?_, ?_⟩
      · rw [TokenStream.readSignature]
        dsimp only
        rw [hrest, hstream cut, hstream, lexemesFrom]
      · rw [TokenStream.readSignature, Reading.signature, hfailure]
        exact .ok rfl
  | some e =>
      obtain ⟨front, back, reason, hlexemes, rfl, hrest, -⟩ := halt_of_readDeclarations [] hfailure
      rw [List.nil_append] at hrest
      have hlist : lexemesFrom base (byteLength cut.consumed) cut.suffix = front ++ back := by
        rw [← hlexemes, hstream]
      have hstop : (cut.stream base).stop =
          base.offset (byteLength cut.consumed + byteLength cut.suffix) := by
        rw [hstream, ← byteLength_append, cut.append]
      obtain ⟨before, after, htext, hlocation, hback, htail⟩ := lexemesFrom_cut hlist hstop
      rw [← byteLength_append] at hlocation hback htail
      generalize hl : head (cut.stream base).stop back = l at *
      have hafter : ((cut.stream base).readSignature dialect).2 =
          ⟨if reason.isNoticedAhead front then back else back.tail, (cut.stream base).stop⟩ := by
        rw [← hrest]
        rfl
      have hanswer : ((cut.stream base).readSignature dialect).1 =
          .error (.atLexeme reason l) := by
        rw [TokenStream.readSignature, Reading.signature, hfailure]
      have hleaves {cut' : Cut text} (hsuffix : cut'.suffix =
          if reason.isNoticedAhead front then l.text.toList ++ after else after) :
          Leaves base cut ((cut.stream base).readSignature dialect).1 cut' := by
        rw [hanswer]
        exact .error hlexemes hl.symm htext hlocation hback hsuffix
      cases hahead : reason.isNoticedAhead front with
      | true =>
          rw [hahead, if_pos rfl] at hafter hleaves
          have hwhole : (cut.consumed ++ before) ++ (l.text.toList ++ after) = text := by
            rw [List.append_assoc, ← htext, cut.append]
          refine ⟨⟨cut.consumed ++ before, _, hwhole⟩, ?_, hleaves rfl⟩
          rw [hafter, hstream, hstream, hback]
      | false =>
          rw [hahead, if_neg Bool.false_ne_true] at hafter hleaves
          have hwhole : (cut.consumed ++ (before ++ l.text.toList)) ++ after = text := by
            rw [List.append_assoc, List.append_assoc, ← htext, cut.append]
          refine ⟨⟨cut.consumed ++ (before ++ l.text.toList), after, hwhole⟩, ?_, hleaves rfl⟩
          rw [hafter, hstream, hstream, htail]

end

/-! ## Attempt after attempt -/

namespace TokenStream

/-- The stream after so many attempts to read a signature. -/
def afterAttempts (dialect : Dialect) (s : TokenStream) : Nat → TokenStream
  | 0 => s
  | n + 1 => ((s.afterAttempts dialect n).readSignature dialect).2

/-- The answer to an attempt to read a signature, after so many others. -/
def attempt (dialect : Dialect) (s : TokenStream) (n : Nat) : Except ParseError SignatureV1_1 :=
  ((s.afterAttempts dialect n).readSignature dialect).1

/-- Once an attempt has changed nothing, all later ones answer alike. -/
theorem attempt_of_settled {s : TokenStream} {n : Nat} {answer : Except ParseError SignatureV1_1}
    (h : (s.afterAttempts dialect n).readSignature dialect = (answer, s.afterAttempts dialect n))
    {m : Nat} (hm : n ≤ m) : s.attempt dialect m = answer := by
  have hstays : s.afterAttempts dialect m = s.afterAttempts dialect n := by
    induction hm with
    | refl => rfl
    | step _ ih => rw [afterAttempts, ih, h]
  rw [attempt, hstays, h]

/-- With nothing left the empty signature is read, and nothing is left. -/
theorem readSignature_of_ok {s : TokenStream} {signature : SignatureV1_1}
    (h : (s.readSignature dialect).1 = .ok signature) :
    (s.readSignature dialect).2.readSignature dialect =
      (.ok ⟨∅, [], []⟩, (s.readSignature dialect).2) := by
  cases hfailure : (s.readDeclarations dialect).failure? with
  | none =>
      have hrest : (s.readDeclarations dialect).rest = [] := rest_of_readDeclarations hfailure
      have hafter : (s.readSignature dialect).2 = ⟨[], s.stop⟩ := by
        rw [readSignature, hrest]
      rw [hafter]
      simp [readSignature, readDeclarations, RootSignature.readDeclarations, Reading.signature,
        Signature.ofDeclarations]
  | some e =>
      rw [readSignature, Reading.signature, hfailure] at h
      cases h

/-- What starts no declaration is refused again, and stays there. -/
theorem readSignature_of_unexpectedDeclaration {s : TokenStream} {e : ParseError} {found : String}
    (h : (s.readSignature dialect).1 = .error e)
    (hreason : e.reason = .unexpectedDeclaration found) :
    (s.readSignature dialect).2.readSignature dialect =
      (.error e, (s.readSignature dialect).2) := by
  cases hfailure : (s.readDeclarations dialect).failure? with
  | none =>
      rw [readSignature, Reading.signature, hfailure] at h
      cases h
  | some e' =>
      obtain rfl : e' = e := by
        rw [readSignature, Reading.signature, hfailure] at h
        exact Except.error.inj h
      obtain ⟨front, back, reason, -, rfl, hrest, hagain⟩ := halt_of_readDeclarations [] hfailure
      obtain rfl : reason = .unexpectedDeclaration found := hreason
      have hafter : (s.readSignature dialect).2 = ⟨back, s.stop⟩ :=
        congrArg (TokenStream.mk · s.stop) hrest
      rw [hafter, readSignature, readDeclarations, hagain found rfl]
      rfl

end TokenStream

/-- Attempts to read a signature go through the source from one end to the other, and each is the
attempt of a new parser on what is left of it: what it leaves is what `Leaves` tells of its answer,
and besides that nothing counts. A signature is followed by empty ones without end, and what starts
no declaration is refused again and again. -/
theorem attempts_resume (source : String) (base : Location) (dialect : Dialect)
    (hroom : base.HasRoomFor (readableText source)) :
    let parser := (TokenStream.ofSource source base).afterAttempts dialect
    let answer := (TokenStream.ofSource source base).attempt dialect
    ∃ cut : Nat → Cut (readableText source), (cut 0).consumed = [] ∧ ∀ n,
      parser n = (cut n).stream base ∧
      ((parser n).atEnd = true ↔ ∀ c ∈ (cut n).suffix, c = ' ') ∧
      Leaves base (cut n) (answer n) (cut (n + 1)) ∧
      (∀ s, answer n = .ok s → ∀ m > n, answer m = .ok ⟨∅, [], []⟩) ∧
      ∀ e found, answer n = .error e → e.reason = .unexpectedDeclaration found →
        ∀ m > n, answer m = .error e := by
  intro parser answer
  have hnul := nul_notMem_readableText source
  choose next hnext hleaves using exists_leaves dialect hnul hroom
  have hparser (n : Nat) :
      parser n = (next^[n] (Cut.start (readableText source))).stream base := by
    induction n with
    | zero =>
        rw [Function.iterate_zero_apply, Cut.stream_eq hnul hroom]
        rfl
    | succ n ih =>
        rw [Function.iterate_succ_apply', ← hnext, ← ih]
        rfl
  refine ⟨fun n => next^[n] (Cut.start _), rfl, fun n => ⟨hparser n, ?_, ?_, ?_, ?_⟩⟩
  · rw [TokenStream.atEnd, List.isEmpty_iff, hparser, Cut.stream_eq hnul hroom]
    exact lexemesFrom_eq_nil_iff
  · have hstep := hleaves (next^[n] (Cut.start _))
    rw [← hparser, ← Function.iterate_succ_apply' next] at hstep
    exact hstep
  · intro s hs m hm
    exact TokenStream.attempt_of_settled (TokenStream.readSignature_of_ok hs) hm
  · intro e found he hreason m hm
    exact TokenStream.attempt_of_settled
      (TokenStream.readSignature_of_unexpectedDeclaration he hreason) hm

/-- What stands behind a finished declaration without being one is refused again and again. -/
theorem attempts_resume_behind_descriptor :
    Location.first.HasRoomFor (readableText "CBV(b0), x, RootFlags(0)") ∧ ∀ m > 0,
      (TokenStream.ofSource "CBV(b0), x, RootFlags(0)" .first).attempt ⟨.v1_1, false⟩ m =
        .error ⟨.unexpectedDeclaration "x", ⟨9⟩, 1⟩ := by
  have hroom : Location.first.HasRoomFor (readableText "CBV(b0), x, RootFlags(0)") :=
    .inr (by decide +kernel)
  obtain ⟨cut, -, hcut⟩ := attempts_resume "CBV(b0), x, RootFlags(0)" .first ⟨.v1_1, false⟩ hroom
  obtain ⟨-, -, -, -, hagain⟩ := hcut 0
  exact ⟨hroom, hagain _ "x" (by decide +kernel) rfl⟩

end RootSignature
