import RootSignature.Proofs.Dialect.Modes
import RootSignature.Proofs.Error.RefusedRegisters
import RootSignature.Proofs.Error.Resumption
import RootSignature.Proofs.Token.Spelled

/-!
# Errors tell the truth

Some reasons are given by no reader, and what the others tell of the source and of the request is
true (`ParseError.IsTruthful`). This holds of each attempt of a parser to read a signature, as well
as of a single one (`errors_truthful`): what a parser goes on with after an error are lexemes of its
source.
-/

namespace RootSignature

open Reader

/-- What an error of reading a stream of lexemes, for the flags of a request and in a version, tells
of them is true. That registers are missing, that a signature can not be converted and that
something has been left unparsed is told by no error. -/
structure ParseError.IsTruthful (flags : FlagSet CompilationFlag) (dialect : Dialect)
    (s : TokenStream) (e : ParseError) : Prop where
  not_expectedRegister : ∀ found, e.reason ≠ .expectedRegister found
  not_conversionFailed : ∀ error, e.reason ≠ .conversionFailed error
  not_unparsed : ∀ text, e.reason ≠ .unparsed text
  /-- The text is a register of another class than it should be, and it stands where an item of a
  descriptor or of a range can come; that of a sampler stands in a range. -/
  incorrectRegisterClass : ∀ found c, e.reason = .incorrectRegisterClass found c →
    ∃ r : Register, Token.IsSpelledBy (.register r) found.toList ∧ r.registerClass ≠ c ∧
      ∃ (k : ConstructKind) (pre items : List Token) (before after : List Lexeme) (l : Lexeme),
        s.lexemes = before ++ l :: after ∧ e = .atLexeme (.incorrectRegisterClass found c) l ∧
        before.map Lexeme.token =
          pre ++ .keyword (.opening k.opening) :: .leftParen :: items ∧
        k.Before dialect pre ∧ k.BeforeItem dialect items ∧
        ((∃ type, k = .descriptor type ∧ c = type.registerClass ∧ r.registerClass ≠ .s) ∨
          ∃ type, k = .range type ∧ c = type.registerClass)
  /-- Only the flags of descriptors and ranges are not supported, and in version 1.0 only. -/
  flagsNotSupported : ∀ family version, e.reason = .flagsNotSupported family version →
    dialect.version = .v1_0 ∧ version = .v1_0 ∧ family ≠ .rootSignature
  /-- The text is a whole number other than zero. -/
  invalidFlagNumber : ∀ family found, e.reason = .invalidFlagNumber family found →
    ∃ n, n ≠ 0 ∧ Token.IsSpelledBy (.uint n) found.toList
  /-- The request is for a global signature. -/
  localFlagInGlobalSignature : e.reason = .localFlagInGlobalSignature → flags.bits &&& 1 = 1

/-! ## One attempt -/

/-- What is left of the declarations is the end of what there was. -/
theorem rest_readDeclarations_suffix (dialect : Dialect) (stop : Location) (flagsDeclared : Bool)
    (ls : List Lexeme) : (readDeclarations dialect stop flagsDeclared ls).rest <:+ ls := by
  fun_induction readDeclarations dialect stop flagsDeclared ls with
  | case1 | case2 | case3 => exact List.suffix_rfl
  | case4 flagsDeclared first ls _ reader hreader e rest hrun => exact suffix_of_run hrun
  | case5 => exact List.nil_suffix
  | case6 flagsDeclared first ls _ reader _ d separator rest hrun _ reading ih =>
      have hsuffix := suffix_of_run hrun
      exact ih.trans ((List.suffix_cons separator rest).trans hsuffix)
  | case7 flagsDeclared first ls _ reader _ d separator rest hrun =>
      have hsuffix := suffix_of_run hrun
      exact (List.suffix_cons separator rest).trans hsuffix

/-- A register of another class is refused only by a descriptor, unless it is that of a sampler, or
by a range. -/
theorem ConstructKind.Refuses.descriptor_or_range {k : ConstructKind}
    {found expected : RegisterClass} (h : k.Refuses found expected) :
    (∃ type, k = .descriptor type ∧ expected = type.registerClass ∧ found ≠ .s) ∨
      ∃ type, k = .range type ∧ expected = type.registerClass := by
  cases k with
  | descriptor type => exact .inl ⟨type, rfl, h.1, h.2.2⟩
  | range type => exact .inr ⟨type, rfl, h.1⟩
  | constants | table | staticSampler => exact h.elim

/-- The place where a register is refused: its lexeme, the construct around it, and what stands
before the construct and in it. -/
theorem ParseError.RefusesRegister.exists_place {dialect : Dialect} {ls : List Lexeme}
    {e : ParseError} {found : String} {c : RegisterClass} (h : e.RefusesRegister dialect ls)
    (hreason : e.reason = .incorrectRegisterClass found c) :
    ∃ (r : Register) (k : ConstructKind) (pre items : List Token) (before after : List Lexeme)
      (l : Lexeme), ls = before ++ l :: after ∧ e = .atLexeme (.incorrectRegisterClass l.text c) l ∧
        before.map Lexeme.token = pre ++ .keyword (.opening k.opening) :: .leftParen :: items ∧
        k.Before dialect pre ∧ k.BeforeItem dialect items ∧ l.token = .register r ∧
        k.Refuses r.registerClass c := by
  obtain ⟨before, word, _, k, rfl, hbefore, hword, paren, front, l, after, r, c', rfl, hparen,
    hitems, hl, hrefuses, rfl⟩ := h
  obtain ⟨-, rfl⟩ := Reason.incorrectRegisterClass.inj hreason
  refine ⟨r, k, _, _, before ++ word :: paren :: front, after, l, by simp, rfl, ?_, hbefore, hitems,
    hl, hrefuses⟩
  rw [List.map_append, List.map_cons, List.map_cons, hword, hparen]

/-- The mode is that of global signatures only if the flags ask for it. -/
theorem FlagSet.mem_of_bindingMode? {flags : FlagSet CompilationFlag}
    (h : flags.bindingMode? = some .globalMode) : .globalRootSignature ∈ flags := by
  unfold FlagSet.bindingMode? at h
  by_contra hg
  cases hl : decide (.localRootSignature ∈ flags) <;> simp [hg, hl] at h

section
variable {flags : FlagSet CompilationFlag} {mode : BindingMode} {version : Version}
  {source : String} {base : Location} {s : TokenStream} {e : ParseError}

/-- An attempt on lexemes of a source tells the truth of them. -/
theorem isTruthful_of_readSignature (hmode : flags.bindingMode? = some mode)
    (hs : s.lexemes <:+ (TokenStream.ofSource source base).lexemes)
    (h : (s.readSignature (mode.dialect version)).1 = .error e) :
    e.IsTruthful flags (mode.dialect version) s := by
  have hfailure := signature_eq_error_iff.1 h
  obtain ⟨reason, l, hl, rfl, hfits⟩ := (blame_of_readDeclarations hfailure).fits
  have hspelled (hl' : l.token ≠ .eof) : l.token.IsSpelledBy l.text.toList := by
    rcases List.mem_append.1 hl with hl | hl
    · exact Token.isSpelledBy_of_mem (hs.mem hl)
    · rw [List.mem_singleton.1 hl] at hl'
      exact absurd rfl hl'
  constructor
  case not_expectedRegister =>
    rintro found rfl
    exact hfits
  case not_conversionFailed =>
    rintro error rfl
    exact hfits
  case not_unparsed =>
    rintro text rfl
    exact hfits
  case incorrectRegisterClass =>
    rintro found c rfl
    obtain ⟨r, k, pre, items, before, after, l', hlexemes, he, htokens, hbefore, hitems, hl',
      hrefuses⟩ := (refusesRegister_of_readDeclarations hfailure trivial).exists_place rfl
    have hmem : l' ∈ s.lexemes := by
      rw [hlexemes]
      exact List.mem_append_right _ (List.mem_cons_self ..)
    have hfound : found = l'.text :=
      (Reason.incorrectRegisterClass.inj (congrArg ParseError.reason he)).1
    exact ⟨r, hfound ▸ hl' ▸ Token.isSpelledBy_of_mem (hs.mem hmem), hrefuses.ne, k, pre, items,
      before, after, l', hlexemes, hfound ▸ he, htokens, hbefore, hitems,
      hrefuses.descriptor_or_range⟩
  case flagsNotSupported =>
    rintro family v rfl
    exact ⟨hfits.1, hfits.2.1, hfits.2.2.1⟩
  case invalidFlagNumber =>
    rintro family found rfl
    obtain ⟨rfl, n, hn, htoken⟩ := hfits
    exact ⟨n, hn, htoken ▸ hspelled (by rw [htoken]; simp)⟩
  case localFlagInGlobalSignature =>
    rintro rfl
    have hglobal : mode = .globalMode := of_decide_eq_true hfits.1
    exact FlagSet.mem_of_bindingMode? (hglobal ▸ hmode)

/-! ## All attempts -/

/-- What a parser goes on with are lexemes that it has been given. -/
theorem TokenStream.lexemes_afterAttempts_suffix (dialect : Dialect) (s : TokenStream) (n : Nat) :
    (s.afterAttempts dialect n).lexemes <:+ s.lexemes := by
  induction n with
  | zero => exact List.suffix_rfl
  | succ n ih => exact (rest_readDeclarations_suffix ..).trans ih

/-- The errors of reading a source are truthful, whether a parser is asked again and again for a
signature or a signature is asked for once, if the flags of the request are not in conflict. -/
theorem errors_truthful (hmode : flags.bindingMode? = some mode) (source : String) (base : Location)
    (version : Version) (e : ParseError) :
    (∀ n, (TokenStream.ofSource source base).attempt (mode.dialect version) n = .error e →
      e.IsTruthful flags (mode.dialect version)
        ((TokenStream.ofSource source base).afterAttempts (mode.dialect version) n)) ∧
    (parseFor? flags source base version = some (.error e) →
      e.IsTruthful flags (mode.dialect version) (TokenStream.ofSource source base)) := by
  constructor
  · intro n h
    exact isTruthful_of_readSignature hmode
      (TokenStream.lexemes_afterAttempts_suffix (mode.dialect version) _ n) h
  · intro h
    obtain ⟨mode', hmode', hparse⟩ := Option.map_eq_some_iff.1 h
    obtain rfl : mode = mode' := Option.some.inj (hmode.symm.trans hmode')
    rw [parse_eq_error_iff] at hparse
    exact isTruthful_of_readSignature hmode List.suffix_rfl (signature_eq_error_iff.2 hparse)

end

/-- The register of a sampler in a range of resources is refused, as the range is read and when a
parser is asked for the first time. -/
theorem errors_truthful_sampler :
    ∃ e, (∅ : FlagSet CompilationFlag).bindingMode? = some .unspecified ∧
      parseFor? ∅ "DescriptorTable(SRV(s0))" .first .v1_1 = some (.error e) ∧
      (TokenStream.ofSource "DescriptorTable(SRV(s0))" .first).attempt
        (BindingMode.unspecified.dialect .v1_1) 0 = .error e ∧
      e.reason = .incorrectRegisterClass "s0" .t ∧
      e.IsTruthful ∅ (BindingMode.unspecified.dialect .v1_1)
        (TokenStream.ofSource "DescriptorTable(SRV(s0))" .first) := by
  have hmode : (∅ : FlagSet CompilationFlag).bindingMode? = some .unspecified := by decide
  let e : ParseError := ⟨.incorrectRegisterClass "s0" .t, ⟨20⟩, 2⟩
  have hattempt : (TokenStream.ofSource "DescriptorTable(SRV(s0))" .first).attempt
      (BindingMode.unspecified.dialect .v1_1) 0 = .error e := by
    refine signature_eq_error_iff.2 ?_
    decide +kernel
  have hparse : parseFor? ∅ "DescriptorTable(SRV(s0))" .first .v1_1 = some (.error e) := by
    rw [parseFor?, hmode, Option.map_some, (parse_eq_error_iff ..).2]
    decide +kernel
  obtain ⟨htruthful, -⟩ := errors_truthful hmode "DescriptorTable(SRV(s0))" .first .v1_1 e
  exact ⟨e, hmode, hparse, hattempt, rfl, htruthful 0 hattempt⟩

end RootSignature
