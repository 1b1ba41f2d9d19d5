import Mathlib.Data.List.TakeWhile
import RootSignature.Proofs.Dialect.Unflagged
import RootSignature.Proofs.Grammar.Separated
import RootSignature.Proofs.Reader.Moved
import RootSignature.Proofs.Token.Delimiters

/-!
# Declarations put together

Two texts with a comma between them have the lexemes of both (`lexemes_append_comma`), and if the
first is a list of declarations without a comma at its end, reading gets through it and goes on with
the second one (`readDeclarations_append`). All that is carried over is whether the flags of the
whole signature have been declared.

So what is made of the whole text is made of its parts (`parse_append_comma`): the declarations add
up if both texts are accepted and do not both declare the flags, and otherwise the second text is
refused where it would be refused alone, or where it declares the flags again.
-/

namespace RootSignature

open Grammar Reader

/-! ## Signatures -/

namespace Signature

variable {D R : Type}

/-- The flags of two signatures together, and their parameters and samplers in order. -/
def append (s t : Signature D R) : Signature D R where
  flags := s.flags ∪ t.flags
  parameters := s.parameters ++ t.parameters
  staticSamplers := s.staticSamplers ++ t.staticSamplers

/-- Flags are erased in each part of an append. -/
theorem eraseFlags_append (s t : Signature D R) :
    (s.append t).eraseFlags = s.eraseFlags.append t.eraseFlags := by
  ext1
  · rfl
  · exact List.map_append
  · rfl

/-- The mode is set once for an append. -/
theorem inMode_append (s t : SignatureV1_1) (mode : BindingMode) :
    (s.append t).inMode mode = (s.inMode mode).append (t.inMode mode) := by
  cases mode with
  | localMode =>
      ext1
      · -- The flag that marks a local signature is in both sets.
        ext1
        simp only [inMode, append, FlagSet.bits_insert, FlagSet.bits_union]
        ac_rfl
      · rfl
      · rfl
  | globalMode => rfl
  | unspecified => rfl

/-- Declarations make what their parts make, if the flags are declared once at most. -/
theorem ofDeclarations_append {ds ds' : List Declaration} (h : FlagsRoom false (ds ++ ds')) :
    ofDeclarations (ds ++ ds') = (ofDeclarations ds).append (ofDeclarations ds') := by
  have hlength : (ds.filter Declaration.isRootFlags).length +
      (ds'.filter Declaration.isRootFlags).length ≤ 1 := by
    simpa [FlagsRoom] using h
  have hmade : MadeOf ds (ofDeclarations ds) :=
    (ofDeclarations_eq_iff (Nat.le_trans (Nat.le_add_right _ _) hlength)).1 rfl
  have hmade' : MadeOf ds' (ofDeclarations ds') :=
    (ofDeclarations_eq_iff (Nat.le_trans (Nat.le_add_left _ _) hlength)).1 rfl
  refine (ofDeclarations_eq_iff h).2 ⟨?_, ?_, ?_⟩
  · show GivenOr (ds ++ ds') .rootFlags ∅ ((ofDeclarations ds).flags ∪ (ofDeclarations ds').flags)
    rcases hmade.flags with hmem | ⟨hnone, hempty⟩
    · rcases hmade'.flags with hmem' | ⟨-, hempty'⟩
      · have hpos : 0 < (ds.filter Declaration.isRootFlags).length :=
          List.length_pos_of_mem (List.mem_filter.2 ⟨hmem, rfl⟩)
        have hpos' : 0 < (ds'.filter Declaration.isRootFlags).length :=
          List.length_pos_of_mem (List.mem_filter.2 ⟨hmem', rfl⟩)
        omega
      · rw [hempty', FlagSet.union_empty]
        exact .inl (List.mem_append_left ds' hmem)
    · rw [hempty, FlagSet.empty_union]
      rcases hmade'.flags with hmem' | ⟨hnone', hempty'⟩
      · exact .inl (List.mem_append_right ds hmem')
      · refine .inr ⟨fun fs hmem => ?_, hempty'⟩
        exact (List.mem_append.1 hmem).elim (hnone fs) (hnone' fs)
  · show _ ++ _ = _
    rw [hmade.parameters, hmade'.parameters, List.filterMap_append]
  · show _ ++ _ = _
    rw [hmade.staticSamplers, hmade'.staticSamplers, List.filterMap_append]

end Signature

/-- A description of a version is put together of two of the same version. -/
inductive VersionedSignature.IsAppend :
    VersionedSignature → VersionedSignature → VersionedSignature → Prop
  | v1_0 (s t : SignatureV1_0) : IsAppend (.v1_0 s) (.v1_0 t) (.v1_0 (s.append t))
  | v1_1 (s t : SignatureV1_1) : IsAppend (.v1_1 s) (.v1_1 t) (.v1_1 (s.append t))

/-- Signatures are appended in every version as they are in the latest. -/
theorem Signature.isAppend_asVersion (s t : SignatureV1_1) (version : Version) :
    VersionedSignature.IsAppend (s.asVersion version) (t.asVersion version)
      ((s.append t).asVersion version) := by
  cases version with
  | v1_0 =>
      show VersionedSignature.IsAppend _ _ (.v1_0 (s.append t).eraseFlags)
      rw [eraseFlags_append]
      exact .v1_0 s.eraseFlags t.eraseFlags
  | v1_1 => exact .v1_1 s t

/-! ## Texts -/

/-- The lexemes of two texts with a comma between them: those of the first, the comma, and those of
the second, which is moved behind the comma. -/
theorem lexemes_append_comma {a : String} (ha : '\x00' ∉ a.toList) (b : String) (base : Location) :
    (TokenStream.ofSource (a ++ "," ++ b) base).lexemes =
      (TokenStream.ofSource a base).lexemes ++
        ⟨.comma, ",", base.offset a.utf8ByteSize⟩ ::
          lexemesFrom base (a.utf8ByteSize + 1) (readableText b) :=
  lexemes_append_delimiter ha (c := ',') (by decide) b base

/-- The end of two sources with a comma between them is behind the second one. -/
theorem stop_append_comma {a : String} (ha : '\x00' ∉ a.toList) (b : String) (base : Location) :
    (TokenStream.ofSource (a ++ "," ++ b) base).stop =
      base.offset (a.utf8ByteSize + 1 + byteLength (readableText b)) :=
  stop_append_delimiter ha (c := ',') (by decide) b base

/-! ## Declarations -/

variable {dialect : Dialect}

/-- Lists of declarations may be joined by a comma. -/
theorem Grammar.CommaList.append {ts ts' : List Token} {ds ds' : List Declaration}
    (h : CommaList (Declaration.Written dialect) ts ds) (h' : Declarations dialect ts' ds') :
    Declarations dialect (ts ++ .comma :: ts') (ds ++ ds') := by
  induction h with
  | single hd => exact h'.cons hd
  | cons hd _ ih =>
      rw [List.append_assoc, List.cons_append, List.cons_append]
      exact ih.cons hd

/-- A list of declarations with at least one token, and no comma at its end, has a comma only
between two declarations. -/
theorem Grammar.Declarations.commaList {ts : List Token} {ds : List Declaration}
    (h : Declarations dialect ts ds) (hlast : ∃ t, ts.getLast? = some t ∧ t ≠ .comma) :
    CommaList (Declaration.Written dialect) ts ds := by
  obtain ⟨t, ht, hcomma⟩ := hlast
  cases h with
  | empty => cases ht
  | list h => exact h
  | trailingComma h =>
      rw [List.getLast?_concat] at ht
      exact absurd (Option.some.inj ht).symm hcomma

section
variable {stop : Location} {flagsDeclared : Bool} {ts : List Token} {ds : List Declaration}
  {front : List Lexeme}

/-- Reading gets through a list of declarations and goes on behind a comma. -/
theorem readDeclarations_append (h : CommaList (Declaration.Written dialect) ts ds)
    (hts : front.map Lexeme.token = ts) (hroom : FlagsRoom flagsDeclared ds) {comma : Lexeme}
    (hcomma : comma.token = .comma) (rest : List Lexeme) :
    (readDeclarations dialect stop flagsDeclared (front ++ comma :: rest)).failure? =
      (readDeclarations dialect stop (flagsDeclared || ds.any Declaration.isRootFlags)
        rest).failure? := by
  induction h generalizing front flagsDeclared with
  | single hd =>
      subst hts
      rw [readDeclarations_of_written hd (flagsRoom_cons.1 hroom).1]
      dsimp only
      rw [if_pos hcomma, List.any_cons, List.any_nil, Bool.or_false]
  | @cons ts ts' d ds hd _ ih =>
      obtain ⟨front₁, front₂, rfl, rfl, hts'⟩ := List.map_eq_append_iff.1 hts
      obtain ⟨comma', front, rfl, hcomma', hfront⟩ := List.map_eq_cons_iff.1 hts'
      rw [flagsRoom_cons] at hroom
      rw [List.append_assoc, List.cons_append, readDeclarations_of_written hd hroom.1]
      dsimp only
      rw [if_pos hcomma', ih hfront hroom.2, List.any_cons, Bool.or_assoc]

/-- If the flags of the whole signature have been declared, declarations that declare them again are
refused at the words `RootFlags`. -/
theorem readDeclarations_rootFlags_of_commaList
    (h : CommaList (Declaration.Written dialect) ts ds)
    (hts : front.map Lexeme.token = ts) (hflags : ds.any Declaration.isRootFlags = true)
    (rest : List Lexeme) :
    ∃ l ∈ front, l.token = .rootFlags ∧
      (readDeclarations dialect stop true (front ++ rest)).failure? =
        some (.atLexeme .rootFlagsRedefined l) := by
  -- The declaration of the flags is refused at its first word.
  have hfirst {ts : List Token} {d : Declaration} (hd : Declaration.Written dialect ts d)
      (hflags : d.isRootFlags = true) {front : List Lexeme} (hts : front.map Lexeme.token = ts)
      (rest : List Lexeme) :
      ∃ l ∈ front, l.token = .rootFlags ∧
        (readDeclarations dialect stop true (front ++ rest)).failure? =
          some (.atLexeme .rootFlagsRedefined l) := by
    subst hts
    obtain ⟨t, ts', reader, hts, -⟩ := Declaration.exists_reader_of_written hd
    obtain ⟨first, front, rfl, rfl, -⟩ := List.map_eq_cons_iff.1 hts
    rw [List.map_cons] at hd
    have htoken := (Declaration.isRootFlags_iff hd).1 hflags
    refine ⟨first, List.mem_cons_self .., htoken, ?_⟩
    rw [List.cons_append, readDeclarations_cons, if_pos ⟨htoken, rfl⟩]
  induction h generalizing front with
  | single hd => exact hfirst hd (by simpa using hflags) hts rest
  | @cons ts ts' d ds hd _ ih =>
      obtain ⟨front₁, front₂, rfl, hfront₁, hts'⟩ := List.map_eq_append_iff.1 hts
      obtain ⟨comma, front, rfl, hcomma, hfront⟩ := List.map_eq_cons_iff.1 hts'
      rw [List.append_assoc, List.cons_append]
      cases hd' : d.isRootFlags with
      | true =>
          obtain ⟨l, hl, htoken, hfailure⟩ := hfirst hd hd' hfront₁ (comma :: (front ++ rest))
          exact ⟨l, List.mem_append_left _ hl, htoken, hfailure⟩
      | false =>
          subst hfront₁
          rw [List.any_cons, hd', Bool.false_or] at hflags
          obtain ⟨l, hl, htoken, hfailure⟩ := ih hfront hflags
          refine ⟨l, List.mem_append_right _ (List.mem_cons_of_mem _ hl), htoken, ?_⟩
          rw [readDeclarations_of_written hd (by simp [hd'])]
          dsimp only
          rw [if_pos hcomma, Bool.true_or]
          exact hfailure

/-- Where flags have been declared before, declarations with flags among them are refused at the
word for the flags. -/
theorem readDeclarations_rootFlags {ls : List Lexeme}
    (h : Declarations dialect (ls.map Lexeme.token) ds)
    (hflags : ds.any Declaration.isRootFlags = true) :
    ∃ l ∈ ls, l.token = .rootFlags ∧
      (readDeclarations dialect stop true ls).failure? =
        some (.atLexeme .rootFlagsRedefined l) := by
  generalize hts : ls.map Lexeme.token = ts at h
  cases h with
  | empty => cases hflags
  | list h => simpa using readDeclarations_rootFlags_of_commaList h hts hflags []
  | trailingComma h =>
      obtain ⟨front, trailing, rfl, hfront, -⟩ := List.map_eq_append_iff.1 hts
      obtain ⟨l, hl, hfailure⟩ := readDeclarations_rootFlags_of_commaList h hfront hflags trailing
      exact ⟨l, List.mem_append_left trailing hl, hfailure⟩

/-- The words `RootFlags` are only in one place if the flags are declared once at most. -/
theorem eq_of_token_rootFlags {ls : List Lexeme}
    (h : Declarations dialect (ls.map Lexeme.token) ds) (hroom : FlagsRoom false ds) {l m : Lexeme}
    (hl : l ∈ ls) (hltoken : l.token = .rootFlags) (hm : m ∈ ls) (hmtoken : m.token = .rootFlags) :
    m = l := by
  have hlength : (ls.filter (fun l => l.token = .rootFlags)).length ≤ 1 := by
    have hcount := h.count_rootFlags
    rw [List.count, List.countP_map, List.countP_eq_length_filter] at hcount
    calc (ls.filter (fun l => l.token = .rootFlags)).length
        = (ds.filter Declaration.isRootFlags).length := hcount
      _ ≤ 1 := hroom
  have hlmem : l ∈ ls.filter (fun l => l.token = .rootFlags) :=
    List.mem_filter.2 ⟨hl, decide_eq_true hltoken⟩
  have hmmem : m ∈ ls.filter (fun l => l.token = .rootFlags) :=
    List.mem_filter.2 ⟨hm, decide_eq_true hmtoken⟩
  cases hfilter : ls.filter (fun l => l.token = .rootFlags) with
  | nil => simp [hfilter] at hlmem
  | cons l' ls' =>
      obtain rfl : ls' = [] := by simpa [hfilter] using hlength
      rw [hfilter, List.mem_singleton] at hlmem hmmem
      rw [hlmem, hmmem]

end

/-- The flags are declared once at most in lists of which only one declares them. -/
theorem flagsRoom_append {ds ds' : List Declaration} (h : FlagsRoom false ds)
    (h' : FlagsRoom false ds')
    (hflags : ¬ (ds.any Declaration.isRootFlags ∧ ds'.any Declaration.isRootFlags)) :
    FlagsRoom false (ds ++ ds') := by
  have hnone (ds : List Declaration) (hds : ¬ ds.any Declaration.isRootFlags) :
      ds.filter Declaration.isRootFlags = [] := by
    rw [List.filter_eq_nil_iff]
    exact fun d hd hflags => hds (List.any_eq_true.2 ⟨d, hd, hflags⟩)
  unfold FlagsRoom at h h' ⊢
  rw [List.filter_append]
  rcases not_and_or.1 hflags with hflags | hflags
  · rwa [hnone ds hflags, List.nil_append]
  · rwa [hnone ds' hflags, List.append_nil]

/-! ## Sources -/

/-- The flags of the whole signature are among the declarations that have been read. -/
def Reading.declaresFlags (r : Reading) : Bool :=
  r.declarations.any Declaration.isRootFlags

/-- Reading a source is reading the declarations in its lexemes. -/
theorem readSource_eq (source : String) (base : Location) (version : Version)
    (mode : BindingMode) :
    readSource source base version mode =
      readDeclarations (mode.dialect version) (TokenStream.ofSource source base).stop false
        (TokenStream.ofSource source base).lexemes := rfl

section
variable {a b : String} {base : Location} {version : Version} {mode : BindingMode}
  {ds : List Declaration}

/-- Declarations and more declarations behind a comma are accepted if the flags of the whole
signature are declared once at most. -/
theorem parse_append_comma_ok {ds' : List Declaration} (ha : '\x00' ∉ a.toList)
    (hds : CommaList (Declaration.Written (mode.dialect version))
      ((TokenStream.ofSource a base).lexemes.map Lexeme.token) ds)
    (hds' : Declarations (mode.dialect version)
      ((TokenStream.ofSource b base).lexemes.map Lexeme.token) ds')
    (hroom : FlagsRoom false (ds ++ ds')) :
    ∃ d, parse (a ++ "," ++ b) base version mode = .ok d ∧
      VersionedSignature.IsAppend (((Signature.ofDeclarations ds).inMode mode).asVersion version)
        (((Signature.ofDeclarations ds').inMode mode).asVersion version) d := by
  have htokens : (TokenStream.ofSource (a ++ "," ++ b) base).lexemes.map Lexeme.token =
      (TokenStream.ofSource a base).lexemes.map Lexeme.token ++
        .comma :: (TokenStream.ofSource b base).lexemes.map Lexeme.token := by
    rw [lexemes_append_comma ha, List.map_append, List.map_cons, tokens_moved base base]
    rfl
  refine ⟨_, parse_of_declarations (htokens ▸ hds.append hds') hroom, ?_⟩
  rw [Signature.ofDeclarations_append hroom, Signature.inMode_append]
  exact Signature.isAppend_asVersion _ _ version

/-- Behind declarations and a comma, an error of reading is the same, moved behind the comma. -/
theorem parse_append_comma_error (ha : '\x00' ∉ a.toList)
    (hds : CommaList (Declaration.Written (mode.dialect version))
      ((TokenStream.ofSource a base).lexemes.map Lexeme.token) ds)
    (hroom : FlagsRoom false ds) {e : ParseError}
    (he : (readDeclarations (mode.dialect version) (TokenStream.ofSource b base).stop
      (ds.any Declaration.isRootFlags) (TokenStream.ofSource b base).lexemes).failure? = some e) :
    ∃ e', parse (a ++ "," ++ b) base version mode = .error e' ∧
      e.Moved base base (a.utf8ByteSize + 1) e' := by
  obtain ⟨e', he', hmoved⟩ : ∃ e', (readDeclarations (mode.dialect version)
      (base.offset (a.utf8ByteSize + 1 + byteLength (readableText b)))
      (ds.any Declaration.isRootFlags)
      (lexemesFrom base (a.utf8ByteSize + 1) (readableText b))).failure? = some e' ∧
      e.Moved base base (a.utf8ByteSize + 1) e' := readDeclarations_moved he
  refine ⟨e', ?_, hmoved⟩
  rw [parse_eq_error_iff, readSource_eq, lexemes_append_comma ha, stop_append_comma ha,
    readDeclarations_append hds rfl hroom rfl, Bool.false_or]
  exact he'

end

/-- Lists of declarations compose. Let a source without NUL be accepted, have a token and not end
with a comma, and let another source stand behind it and a comma. If this one is accepted too, and
not both declare the flags of the whole signature, then the whole is accepted, and its description
is put together of theirs. If both declare the flags, then the second `RootFlags` is refused. If the
first does not declare them and the second is refused, then the whole is refused in the same
place. -/
theorem parse_append_comma (a b : String) (base : Location) (version : Version)
    (mode : BindingMode) (d : VersionedSignature) (hnul : '\x00' ∉ a.toList)
    (ha : parse a base version mode = .ok d)
    (hlast : ∃ l, (TokenStream.ofSource a base).lexemes.getLast? = some l ∧ l.token ≠ .comma) :
    (∀ d', parse b base version mode = .ok d' →
      ¬ ((readSource a base version mode).declaresFlags ∧
        (readSource b base version mode).declaresFlags) →
      ∃ d'', parse (a ++ "," ++ b) base version mode = .ok d'' ∧ d.IsAppend d' d'') ∧
    (∀ d', parse b base version mode = .ok d' →
      (readSource a base version mode).declaresFlags →
      (readSource b base version mode).declaresFlags →
      ∃ l e, l ∈ (TokenStream.ofSource b base).lexemes ∧ l.token = .rootFlags ∧
        (∀ m ∈ (TokenStream.ofSource b base).lexemes, m.token = .rootFlags → m = l) ∧
        parse (a ++ "," ++ b) base version mode = .error e ∧
        (ParseError.atLexeme .rootFlagsRedefined l).Moved base base (a.utf8ByteSize + 1) e) ∧
    (∀ e, parse b base version mode = .error e →
      ¬ (readSource a base version mode).declaresFlags →
      ∃ e', parse (a ++ "," ++ b) base version mode = .error e' ∧
        e.Moved base base (a.utf8ByteSize + 1) e') := by
  obtain ⟨ds, hdsa, hdsWritten, hroom, rfl⟩ := declarations_of_parse ha
  have hlist : CommaList (Declaration.Written (mode.dialect version))
      ((TokenStream.ofSource a base).lexemes.map Lexeme.token) ds := by
    obtain ⟨l, hl, hcomma⟩ := hlast
    exact hdsWritten.commaList ⟨l.token, by rw [List.getLast?_map, hl]; rfl, hcomma⟩
  simp only [Reading.declaresFlags, hdsa]
  refine ⟨fun d' hb hflags => ?_, fun d' hb hflags hflags' => ?_, fun e hb hflags => ?_⟩
  · obtain ⟨ds', hdsb, hdsWritten', hroom', rfl⟩ := declarations_of_parse hb
    rw [hdsb] at hflags
    exact parse_append_comma_ok hnul hlist hdsWritten' (flagsRoom_append hroom hroom' hflags)
  · obtain ⟨ds', hdsb, hdsWritten', hroom', rfl⟩ := declarations_of_parse hb
    rw [hdsb] at hflags'
    obtain ⟨l, hl, htoken, hfailure⟩ := readDeclarations_rootFlags hdsWritten' hflags'
    obtain ⟨e, he, hmoved⟩ := parse_append_comma_error hnul hlist hroom (hflags ▸ hfailure)
    exact ⟨l, e, hl, htoken, fun m => eq_of_token_rootFlags hdsWritten' hroom' hl htoken, he,
      hmoved⟩
  · refine parse_append_comma_error hnul hlist hroom ?_
    rw [Bool.eq_false_of_not_eq_true hflags]
    exact (parse_eq_error_iff b base version mode e).1 hb

/-- Constants stand behind a resource view. A register of another class in them is refused where it
stands, eight bytes on. -/
theorem parse_append_comma_srv :
    '\x00' ∉ "SRV(t0)".toList ∧
      parse "SRV(t0)" .first .v1_1 .unspecified =
        .ok (.v1_1 ⟨∅, [⟨.descriptor ⟨.srv, 0, 0, ∅⟩, .all⟩], []⟩) ∧
      parse ("SRV(t0)" ++ "," ++ "CBV(b1)") .first .v1_1 .unspecified =
        .ok (.v1_1 ⟨∅, [⟨.descriptor ⟨.srv, 0, 0, ∅⟩, .all⟩,
          ⟨.descriptor ⟨.cbv, 1, 0, ∅⟩, .all⟩], []⟩) ∧
      parse "CBV(t1)" .first .v1_1 .unspecified =
        .error ⟨.incorrectRegisterClass "t1" .b, ⟨4⟩, 2⟩ ∧
      ∃ e, parse ("SRV(t0)" ++ "," ++ "CBV(t1)") .first .v1_1 .unspecified = .error e ∧
        (ParseError.mk (.incorrectRegisterClass "t1" .b) ⟨4⟩ 2).Moved .first .first 8 e := by
  have hnul : '\x00' ∉ "SRV(t0)".toList := by decide
  have ha : parse "SRV(t0)" .first .v1_1 .unspecified =
      .ok (.v1_1 ⟨∅, [⟨.descriptor ⟨.srv, 0, 0, ∅⟩, .all⟩], []⟩) := by
    rw [parse_eq_ok_iff]
    exact ⟨_, signature_eq_ok_iff.2 ⟨by decide +kernel, by decide +kernel⟩, rfl⟩
  have hlast : ∃ l, (TokenStream.ofSource "SRV(t0)" .first).lexemes.getLast? = some l ∧
      l.token ≠ .comma :=
    ⟨⟨.rightParen, ")", ⟨6⟩⟩, by decide +kernel, by decide⟩
  have hb : parse "CBV(b1)" .first .v1_1 .unspecified =
      .ok (.v1_1 ⟨∅, [⟨.descriptor ⟨.cbv, 1, 0, ∅⟩, .all⟩], []⟩) := by
    rw [parse_eq_ok_iff]
    exact ⟨_, signature_eq_ok_iff.2 ⟨by decide +kernel, by decide +kernel⟩, rfl⟩
  have hb' : parse "CBV(t1)" .first .v1_1 .unspecified =
      .error ⟨.incorrectRegisterClass "t1" .b, ⟨4⟩, 2⟩ := by
    rw [parse_eq_error_iff]
    decide +kernel
  have hflags : ¬ (readSource "SRV(t0)" .first .v1_1 .unspecified).declaresFlags := by
    decide +kernel
  obtain ⟨d, hd, happend⟩ :=
    (parse_append_comma _ _ _ _ _ _ hnul ha hlast).1 _ hb fun h => hflags h.1
  cases happend
  exact ⟨hnul, ha, hd, hb', (parse_append_comma _ _ _ _ _ _ hnul ha hlast).2.2 _ hb' hflags⟩

end RootSignature
