import RootSignature.Log
import RootSignature.Proofs.Grammar.BrokenOff
import RootSignature.Proofs.Grammar.Separated
import RootSignature.Proofs.Dialect.Unflagged

/-!
# The log mirrors the reading

The log of a reading has an entry for each declaration that is complete, whether the source is read
to its end or breaks off. So the entries of an accepted source tell the kinds of its parameters, the
number of its samplers and whether it declares flags (`log_mirrors_parse`). The conversion to
version 1.0 is always announced and never fails.
-/

namespace RootSignature

open Grammar

/-! ## What the log and the signature tell -/

/-- The message of an entry that is a trace. -/
def LogEntry.trace? (entry : LogEntry) : Option String :=
  if entry.level = .trace then entry.message? else none

/-- The name of what is bound. -/
def Binding.kindText {D R : Type} : Binding D R → String
  | .constants _ => "root constants"
  | .descriptor _ => "root descriptor"
  | .table _ => "descriptor table"

/-- The names of what parameters can bind. -/
def parameterKinds : List String :=
  ["root constants", "root descriptor", "descriptor table"]

/-- The names of what the parameters of a signature bind, in their order. -/
def Signature.kindTexts {D R : Type} (s : Signature D R) : List String :=
  s.parameters.map fun p => p.binding.kindText

/-- The names of what the parameters bind, in their order. -/
def VersionedSignature.kindTexts : VersionedSignature → List String
  | v1_0 s => s.kindTexts
  | v1_1 s => s.kindTexts

/-- The number of samplers that are fixed in the signature. -/
def VersionedSignature.samplerCount : VersionedSignature → Nat
  | v1_0 s => s.staticSamplers.length
  | v1_1 s => s.staticSamplers.length

/-! ## Signatures in other versions -/

section
variable {D R D' R' : Type}

/-- The kind of a binding does not depend on its flags. -/
theorem Binding.kindText_mapFlags (descriptor : RootDescriptor D → D')
    (range : DescriptorRange R → R') (b : Binding D R) :
    (b.mapFlags descriptor range).kindText = b.kindText := by
  cases b <;> rfl

/-- The kinds of the parameters stay when flags are erased. -/
theorem Signature.kindTexts_eraseFlags (s : Signature D R) :
    s.eraseFlags.kindTexts = s.kindTexts := by
  unfold kindTexts eraseFlags mapFlags
  rw [List.map_map]
  refine List.map_congr_left fun p _ => ?_
  exact Binding.kindText_mapFlags _ _ p.binding

end

/-- Neither the mode nor the version changes what a signature binds. -/
theorem Signature.kindTexts_asVersion (s : SignatureV1_1) (mode : BindingMode) (version : Version) :
    ((s.inMode mode).asVersion version).kindTexts = s.kindTexts ∧
      ((s.inMode mode).asVersion version).samplerCount = s.staticSamplers.length := by
  have hmode : (s.inMode mode).kindTexts = s.kindTexts ∧
      (s.inMode mode).staticSamplers = s.staticSamplers := by
    cases mode <;> exact ⟨rfl, rfl⟩
  cases version with
  | v1_0 => exact ⟨(kindTexts_eraseFlags _).trans hmode.1, congrArg List.length hmode.2⟩
  | v1_1 => exact ⟨hmode.1, congrArg List.length hmode.2⟩

/-! ## The kinds of declarations -/

/-- The kind of a declared parameter is the kind of its binding. -/
theorem Declaration.kindText_parameter (p : RootParameterV1_1) :
    (parameter p).kindText = p.binding.kindText := by
  obtain ⟨binding, visibility⟩ := p
  cases binding <;> rfl

/-- What a parameter binds is called differently from flags and samplers. -/
theorem Binding.kindText_spec {D R : Type} (b : Binding D R) :
    b.kindText ∈ parameterKinds ∧ b.kindText ≠ "static sampler" ∧ b.kindText ≠ "root flags" := by
  cases b <;> simp [kindText, parameterKinds]

/-- The names of declarations tell the kinds of the parameters that they make. -/
theorem Declaration.filter_kindText (ds : List Declaration) :
    (ds.map kindText).filter (· ∈ parameterKinds) = (Signature.ofDeclarations ds).kindTexts := by
  induction ds with
  | nil => rfl
  | cons d ds ih =>
      rw [List.map_cons]
      cases d with
      | rootFlags fs | staticSampler s =>
          rw [List.filter_cons_of_neg (by simp [kindText, parameterKinds]), ih]
          rfl
      | parameter p =>
          rw [kindText_parameter,
            List.filter_cons_of_pos (by simpa using p.binding.kindText_spec.1), ih]
          rfl

/-- They tell the number of samplers. -/
theorem Declaration.count_kindText_staticSampler (ds : List Declaration) :
    (ds.map kindText).count "static sampler" =
      (Signature.ofDeclarations ds).staticSamplers.length := by
  induction ds with
  | nil => rfl
  | cons d ds ih =>
      rw [List.map_cons]
      cases d with
      | rootFlags fs =>
          rw [List.count_cons_of_ne (by simp [kindText]), ih]
          rfl
      | parameter p =>
          rw [kindText_parameter, List.count_cons_of_ne p.binding.kindText_spec.2.1, ih]
          rfl
      | staticSampler s =>
          have hname : (staticSampler s).kindText = "static sampler" := rfl
          rw [hname, List.count_cons_self, ih]
          rfl

/-- They tell how often the flags of the whole are declared. -/
theorem Declaration.count_kindText_rootFlags (ds : List Declaration) :
    (ds.map kindText).count "root flags" = (ds.filter isRootFlags).length := by
  induction ds with
  | nil => rfl
  | cons d ds ih =>
      rw [List.map_cons]
      cases d with
      | rootFlags fs =>
          have hname : (rootFlags fs).kindText = "root flags" := rfl
          rw [hname, List.count_cons_self, ih]
          rfl
      | parameter p =>
          rw [kindText_parameter, List.count_cons_of_ne p.binding.kindText_spec.2.2, ih]
          rfl
      | staticSampler s =>
          rw [List.count_cons_of_ne (by simp [kindText]), ih]
          rfl

/-! ## The entries of a log -/

/-- What has been read in a version can be converted to it, so the conversion is announced and
nothing more. -/
theorem conversionLog_eq {source : String} {base : Location} {version : Version}
    {mode : BindingMode} {s : SignatureV1_1}
    (h : (readSource source base version mode).signature = .ok s) :
    (s.inMode mode).conversionLog version =
      if version = .v1_0 then [.converting .v1_1 .v1_0] else [] := by
  cases version with
  | v1_0 =>
      rw [Signature.conversionLog, Signature.convert_eq_ok (firstFlagged?_eq_none_of_readSource h)]
      rfl
  | v1_1 => rfl

/-- The traces of a log are the names of the declarations that have been read. -/
theorem filterMap_trace?_parseLog (source : String) (base : Location) (version : Version)
    (mode : BindingMode) :
    (parseLog source base version mode).filterMap LogEntry.trace? =
      (readSource source base version mode).declarations.map Declaration.kindText := by
  have hdeclared (ds : List Declaration) :
      (ds.map fun d => LogEntry.declared d.kindText).filterMap LogEntry.trace? =
        ds.map Declaration.kindText := by
    rw [List.filterMap_map]
    exact congrFun List.filterMap_eq_map' ds
  have houtcome : ((readSource source base version mode).outcomeLog version mode).filterMap
      LogEntry.trace? = [] := by
    cases hread : (readSource source base version mode).signature with
    | error e =>
        rw [Reading.outcomeLog, hread]
        rfl
    | ok s =>
        rw [Reading.outcomeLog, hread]
        dsimp only
        rw [conversionLog_eq hread]
        cases version <;> rfl
  rw [parseLog, List.filterMap_append, List.filterMap_append, List.filterMap_append, hdeclared,
    houtcome, List.append_nil]
  exact List.append_nil _

section
variable (source : String) (base : Location) (version : Version) (mode : BindingMode)

/-- The log of a source that is accepted. -/
theorem parseLog_of_ok {d : VersionedSignature} (h : parse source base version mode = .ok d) :
    parseLog source base version mode =
      [.opened source.utf8ByteSize version, .entered] ++
        (readSource source base version mode).declarations.map (fun d => .declared d.kindText) ++
        .accepted d.kindTexts.length d.samplerCount ::
          (if version = .v1_0 then [.converting .v1_1 .v1_0] else []) ++ [.exited] := by
  obtain ⟨s, hread, rfl⟩ := parse_eq_ok_iff.1 h
  obtain ⟨hkinds, hsamplers⟩ := s.kindTexts_asVersion mode version
  rw [parseLog, Reading.outcomeLog, hread]
  dsimp only
  rw [conversionLog_eq hread, hkinds, hsamplers, Signature.kindTexts, List.length_map]

/-- The log of a source that is refused. -/
theorem parseLog_of_error {e : ParseError} (h : parse source base version mode = .error e) :
    parseLog source base version mode =
      [.opened source.utf8ByteSize version, .entered] ++
        (readSource source base version mode).declarations.map (fun d => .declared d.kindText) ++
        [.refused e.reason.message] ++ [.exited] := by
  have hread : (readSource source base version mode).signature = .error e :=
    signature_eq_error_iff.2 ((parse_eq_error_iff source base version mode e).1 h)
  rw [parseLog, Reading.outcomeLog, hread]

end

/-- The log mirrors the reading. Between the entries that open and close the span there is one trace
for each declaration that is complete, in the order of the source, and then the outcome.

If the source is accepted, these are all of its declarations. The outcome tells the numbers of
parameters and samplers of the answer, and that it is going to be converted if version 1.0 is asked
for. The traces of parameters are the kinds of the parameters of the answer, those of samplers are
as many as its samplers, and there is one for flags if the source has the word for them.

If the source is refused, these are the declarations behind which it breaks off, and the outcome is
the message of the error. -/
theorem log_mirrors_parse (source : String) (base : Location) (version : Version)
    (mode : BindingMode) :
    let stream := TokenStream.ofSource source base
    let tokens := stream.lexemes.map Lexeme.token
    let dialect := mode.dialect version
    let log := parseLog source base version mode
    let traces := log.filterMap LogEntry.trace?
    (∀ d, parse source base version mode = .ok d → ∃ ds,
      Declarations dialect tokens ds ∧
      log = [.opened source.utf8ByteSize version, .entered] ++
        ds.map (fun d => .declared d.kindText) ++
        .accepted d.kindTexts.length d.samplerCount ::
          (if version = .v1_0 then [.converting .v1_1 .v1_0] else []) ++ [.exited] ∧
      traces = ds.map Declaration.kindText ∧
      traces.filter (· ∈ parameterKinds) = d.kindTexts ∧
      traces.count "static sampler" = d.samplerCount ∧
      traces.count "root flags" = if .rootFlags ∈ tokens then 1 else 0) ∧
    ∀ e, parse source base version mode = .error e → ∃ ds,
      BreaksOff dialect stream.stop false stream.lexemes ds e ∧
      (∀ ds' e', BreaksOff dialect stream.stop false stream.lexemes ds' e' → ds' = ds) ∧
      log = [.opened source.utf8ByteSize version, .entered] ++
        ds.map (fun d => .declared d.kindText) ++ [.refused e.reason.message] ++ [.exited] ∧
      traces = ds.map Declaration.kindText := by
  intro stream tokens dialect log traces
  have htraces : traces = _ := filterMap_trace?_parseLog source base version mode
  refine ⟨fun d h => ?_, fun e h => ?_⟩
  · obtain ⟨ds, hread, hds, hroom, rfl⟩ := declarations_of_parse h
    have hlog := parseLog_of_ok source base version mode h
    rw [hread] at hlog htraces
    obtain ⟨hkinds, hsamplers⟩ := (Signature.ofDeclarations ds).kindTexts_asVersion mode version
    refine ⟨ds, hds, hlog, htraces, ?_, ?_, ?_⟩
    · rw [hkinds, ← Declaration.filter_kindText, ← htraces]
    · rw [hsamplers, ← Declaration.count_kindText_staticSampler, ← htraces]
    · -- The word for flags stands once in each declaration of them, and there is room for one.
      rw [htraces, Declaration.count_kindText_rootFlags, ← hds.count_rootFlags]
      have hatMost : tokens.count .rootFlags ≤ 1 := by
        rw [hds.count_rootFlags]
        exact hroom
      split <;> rename_i hmem
      · exact Nat.le_antisymm hatMost (List.count_pos_iff.2 hmem)
      · exact List.count_eq_zero.2 hmem
  · have hfailure := (parse_eq_error_iff source base version mode e).1 h
    have hlog := parseLog_of_error source base version mode h
    exact ⟨_, breaksOff_of_readDeclarations hfailure, fun ds' e' h' => h'.declarations_eq.symm,
      hlog, htraces⟩

/-- The log of an accepted source tells of a descriptor and of flags, and the log of a source that
lacks a comma tells of the one declaration before it. -/
theorem log_mirrors_parse_missingComma :
    parse "RootFlags(0),CBV(b0)" .first .v1_0 .unspecified =
        .ok (.v1_0 ⟨∅, [⟨.descriptor ⟨.cbv, 0, 0, ()⟩, .all⟩], []⟩) ∧
      (let traces :=
          (parseLog "RootFlags(0),CBV(b0)" .first .v1_0 .unspecified).filterMap LogEntry.trace?;
        traces.filter (· ∈ parameterKinds) = ["root descriptor"] ∧
          traces.count "static sampler" = 0 ∧ traces.count "root flags" = 1) ∧
      parse "CBV(b0) SRV(t0)" .first .v1_1 .unspecified = .error ⟨.expectedComma "SRV", ⟨8⟩, 3⟩ ∧
      ∃ ds : List Declaration, ds.map Declaration.kindText = ["root descriptor"] ∧
        parseLog "CBV(b0) SRV(t0)" .first .v1_1 .unspecified =
          [.opened 15 .v1_1, .entered] ++ ds.map (fun d => .declared d.kindText) ++
            [.refused (Reason.expectedComma "SRV").message] ++ [.exited] := by
  have hok : parse "RootFlags(0),CBV(b0)" .first .v1_0 .unspecified =
      .ok (.v1_0 ⟨∅, [⟨.descriptor ⟨.cbv, 0, 0, ()⟩, .all⟩], []⟩) := by
    rw [parse_eq_ok_iff]
    exact ⟨⟨∅, [⟨.descriptor ⟨.cbv, 0, 0, ∅⟩, .all⟩], []⟩,
      signature_eq_ok_iff.2 ⟨by decide +kernel, by decide +kernel⟩, rfl⟩
  have herror : parse "CBV(b0) SRV(t0)" .first .v1_1 .unspecified =
      .error ⟨.expectedComma "SRV", ⟨8⟩, 3⟩ := by
    rw [parse_eq_error_iff]
    decide +kernel
  have hflags : Token.rootFlags ∈
      (TokenStream.ofSource "RootFlags(0),CBV(b0)" .first).lexemes.map Lexeme.token := by
    decide +kernel
  obtain ⟨_, -, -, -, hkinds, hsamplers, hcount⟩ := (log_mirrors_parse _ _ _ _).1 _ hok
  rw [if_pos hflags] at hcount
  obtain ⟨ds, -, -, hlog, htraces⟩ := (log_mirrors_parse _ _ _ _).2 _ herror
  have hone : (parseLog "CBV(b0) SRV(t0)" .first .v1_1 .unspecified).filterMap LogEntry.trace? =
      ["root descriptor"] := by
    rw [filterMap_trace?_parseLog]
    decide +kernel
  exact ⟨hok, ⟨hkinds, hsamplers, hcount⟩, herror, ds, htraces.symm.trans hone, hlog⟩

end RootSignature
