import RootSignature.Compilation
import RootSignature.Proofs.Error.Anchor
import RootSignature.Proofs.Source.Blocks
import RootSignature.Proofs.Source.Line
import RootSignature.Proofs.Token.Characters

/-!
# The answers of compilation

A request is built from the name and the text of a source in any number of steps
(`CompilationRequest.build`). Its version and its flags are those that have been set last, with the
modes that have been asked for since (`CompilationRequest.flags_build`). Its answer is then known
from its flags and from what `parse` answers to the source (`compile_build`). In particular there is
always an error to show.

An error of `parse` blames a lexeme of the source, so its place lies between two characters, and its
range does not reach over the end of the line (`exists_span_of_parse`): a newline is a token of its
own.
-/

namespace RootSignature

/-! ## Requests -/

/-- A step in which a request is changed. -/
inductive RequestStep where
  | withVersion (version : Version)
  | withFlags (flags : FlagSet CompilationFlag)
  | asGlobal
  | asLocal
deriving DecidableEq

namespace RequestStep

/-- The bits of the modes that are asked for in a number of steps. -/
def modeBits (steps : List RequestStep) : UInt32 :=
  (if .asGlobal ∈ steps then 1 else 0) ||| (if .asLocal ∈ steps then 2 else 0)

/-- Asking for a global signature sets a bit, whether or not it is asked for again. -/
theorem modeBits_asGlobal (steps : List RequestStep) :
    modeBits (.asGlobal :: steps) = 1 ||| modeBits steps := by
  by_cases hmem : .asGlobal ∈ steps <;> simp [modeBits, hmem, ← UInt32.or_assoc]

/-- Asking for a local signature sets another bit. -/
theorem modeBits_asLocal (steps : List RequestStep) :
    modeBits (.asLocal :: steps) = 2 ||| modeBits steps := by
  rw [UInt32.or_comm]
  by_cases hmem : .asLocal ∈ steps <;> simp [modeBits, hmem, UInt32.or_assoc]

end RequestStep

namespace CompilationRequest

/-- The request after a step. -/
def step (r : CompilationRequest) : RequestStep → CompilationRequest
  | .withVersion version => r.withVersion version
  | .withFlags flags => r.withFlags flags
  | .asGlobal => r.asGlobal
  | .asLocal => r.asLocal

/-- The request for a source after a number of steps. -/
def build (fileName source : String) (steps : List RequestStep) : CompilationRequest :=
  steps.foldl step { fileName, source }

/-- The steps do not change what is to be compiled. -/
theorem source_build (fileName source : String) (steps : List RequestStep) :
    (build fileName source steps).fileName = fileName ∧
      (build fileName source steps).source = source := by
  have hsteps (r : CompilationRequest) :
      (steps.foldl step r).fileName = r.fileName ∧ (steps.foldl step r).source = r.source := by
    induction steps generalizing r with
    | nil => exact ⟨rfl, rfl⟩
    | cons s steps ih =>
        obtain ⟨hname, hsource⟩ := ih (r.step s)
        cases s <;> exact ⟨hname, hsource⟩
  exact hsteps { fileName, source }

/-- Steps that do not set the version keep it. -/
theorem version_foldl_step {steps : List RequestStep} (h : ∀ version, .withVersion version ∉ steps)
    (r : CompilationRequest) : (steps.foldl step r).version = r.version := by
  induction steps generalizing r with
  | nil => rfl
  | cons s steps ih =>
      have hlater (version : Version) : .withVersion version ∉ steps :=
        fun hmem => h version (List.mem_cons_of_mem s hmem)
      rw [List.foldl_cons, ih hlater]
      cases s with
      | withVersion version => exact absurd (List.mem_cons_self ..) (h version)
      | withFlags flags => rfl
      | asGlobal => rfl
      | asLocal => rfl

/-- Steps that do not set the flags add those of the modes that they ask for. -/
theorem flags_foldl_step {steps : List RequestStep} (h : ∀ flags, .withFlags flags ∉ steps)
    (r : CompilationRequest) :
    (steps.foldl step r).flags.bits = r.flags.bits ||| RequestStep.modeBits steps := by
  induction steps generalizing r with
  | nil => simp [RequestStep.modeBits]
  | cons s steps ih =>
      have hlater (flags : FlagSet CompilationFlag) : .withFlags flags ∉ steps :=
        fun hmem => h flags (List.mem_cons_of_mem s hmem)
      rw [List.foldl_cons, ih hlater]
      cases s with
      | withVersion version => simp [RequestStep.modeBits, step, withVersion]
      | withFlags flags => exact absurd (List.mem_cons_self ..) (h flags)
      | asGlobal =>
          have hbits : (r.step .asGlobal).flags.bits = r.flags.bits ||| 1 := rfl
          rw [hbits, UInt32.or_assoc, RequestStep.modeBits_asGlobal]
      | asLocal =>
          have hbits : (r.step .asLocal).flags.bits = r.flags.bits ||| 2 := rfl
          rw [hbits, UInt32.or_assoc, RequestStep.modeBits_asLocal]

/-- A request is made of the request after any of its steps by the later ones. A step that leaves a
new request as it is may be added in front. -/
theorem exists_build_eq_foldl (fileName source : String) {first last : RequestStep}
    {steps later : List RequestStep}
    (hfirst : step { fileName, source } first = { fileName, source })
    (hlast : last :: later <:+ first :: steps) :
    ∃ r : CompilationRequest, build fileName source steps = later.foldl step (r.step last) := by
  rcases List.suffix_cons_iff.1 hlast with hnone | ⟨earlier, rfl⟩
  · obtain ⟨rfl, rfl⟩ := List.cons_eq_cons.1 hnone
    exact ⟨{ fileName, source }, by rw [hfirst, build]⟩
  · exact ⟨_, by rw [build, List.foldl_append, List.foldl_cons]⟩

/-- The version of a request is the one that has been set last. A new request has the latest. -/
theorem version_build (fileName source : String) {steps later : List RequestStep}
    {version : Version} (hlast : .withVersion version :: later <:+ .withVersion .latest :: steps)
    (hlater : ∀ version', .withVersion version' ∉ later) :
    (build fileName source steps).version = version := by
  obtain ⟨r, hr⟩ := exists_build_eq_foldl fileName source rfl hlast
  rw [hr, version_foldl_step hlater]
  rfl

/-- The flags of a request are those that have been set last, with the bits of the modes that have
been asked for since. A new request has none. -/
theorem flags_build (fileName source : String) {steps later : List RequestStep}
    {flags : FlagSet CompilationFlag} (hlast : .withFlags flags :: later <:+ .withFlags ∅ :: steps)
    (hlater : ∀ flags', .withFlags flags' ∉ later) :
    (build fileName source steps).flags.bits = flags.bits ||| RequestStep.modeBits later := by
  obtain ⟨r, hr⟩ := exists_build_eq_foldl fileName source rfl hlast
  rw [hr, flags_foldl_step hlater]
  rfl

end CompilationRequest

/-- The modes are in conflict if both of their bits are set. -/
theorem FlagSet.isConflicting_iff {s : FlagSet CompilationFlag} :
    s.isConflicting = true ↔ s.bits &&& 3 = 3 := by
  have hmem : s.isConflicting = true ↔ s.bits &&& 1 = 1 ∧ s.bits &&& 2 = 2 := decide_eq_true_iff
  rw [hmem]
  refine ⟨fun h => ?_, fun h => ⟨?_, ?_⟩⟩
  · obtain ⟨hglobal, hlocal⟩ := h
    calc s.bits &&& 3 = s.bits &&& (1 ||| 2) := rfl
      _ = (s.bits &&& 1) ||| (s.bits &&& 2) :=
        UInt32.toBitVec_inj.1 BitVec.and_or_distrib_left
      _ = 3 := by rw [hglobal, hlocal]; rfl
  · calc s.bits &&& 1 = s.bits &&& (3 &&& 1) := rfl
      _ = (s.bits &&& 3) &&& 1 := (UInt32.and_assoc _ _ _).symm
      _ = 1 := by rw [h]; rfl
  · calc s.bits &&& 2 = s.bits &&& (3 &&& 2) := rfl
      _ = (s.bits &&& 3) &&& 2 := (UInt32.and_assoc _ _ _).symm
      _ = 2 := by rw [h]; rfl

/-! ## The range of an error -/

/-- The range of an error is a part of the source, and no line ends within it, but for the range of
a newline. -/
theorem exists_span_of_parse {source : String} {version : Version} {mode : BindingMode}
    {e : ParseError} (hsize : source.utf8ByteSize < Location.unknownRaw)
    (h : parse source .first version mode = .error e) :
    ∃ front range back, source.toList = front ++ (range ++ back) ∧
      e.location.raw = byteLength front ∧ e.width = byteLength range ∧
      ('\n' ∈ range → range = ['\n']) := by
  obtain ⟨reason, l, hl, rfl⟩ := (blame_of_parse h).within
  obtain ⟨before, after, hsource, hloc, -⟩ := exists_split_of_mem_lexemes hl
  refine ⟨before, l.text.toList, after, hsource, raw_first_of_split hsize hsource hloc,
    (byteLength_toList l.text).symm, fun hmem => ?_⟩
  rcases List.mem_append.1 hl with hl | hl
  · exact text_eq_of_newline_mem hl hmem
  · obtain rfl := List.mem_singleton.1 hl
    cases hmem

/-! ## What is shown of an error -/

/-- What is shown of an error in a line: its place and its message, the line, and below it a mark
under the whole range of the error. -/
def diagnosticText (fileName : String) (line : Nat) (before after : List Char)
    (message : String) (width : Nat) : String :=
  s!"{fileName}:{line}:{1 + byteLength before}: error: {message}\n" ++
    String.ofList (before ++ after ++ '\n' :: (List.replicate before.length ' ' ++
      '^' :: List.replicate (max 1 width - 1) '~') ++ ['\n'])

/-- A place in a source that is loaded alone is found in it. -/
theorem position?_ofList (fileName source : String) {l : Location}
    (hsize : source.utf8ByteSize < Location.unknownRaw) (hl : l.raw ≤ source.utf8ByteSize) :
    (SourceFiles.ofList [(fileName, source)]).position? l =
      some ⟨0, ⟨fileName, source, .first⟩, l.raw⟩ := by
  have hblocks : Blocks 0 (SourceFiles.ofList [(fileName, source)]).files
      (0 + source.utf8ByteSize + 1) := .cons rfl (.nil _)
  have hcontains : (⟨fileName, source, .first⟩ : SourceFile).contains l = true := by
    have hend : Location.first.raw + source.utf8ByteSize = source.utf8ByteSize := Nat.zero_add _
    exact SourceFile.contains_of_bounds (hend.trans_lt hsize) ⟨Nat.zero_le _, hl.trans_eq hend.symm⟩
  exact hblocks.position?_eq rfl hcontains

/-- The mark under a range that lies in one line is as wide as the range. -/
theorem markWidth_eq {range back : List Char} (hnewline : '\n' ∈ range → range = ['\n'])
    (before : List Char) :
    (⟨before, (range ++ back).takeWhile (· ≠ '\n'), byteLength range⟩ : Snippet).markWidth =
      max 1 (byteLength range) := by
  unfold Snippet.markWidth
  by_cases hmem : '\n' ∈ range
  · -- A newline ends its line, so nothing of the line is left to mark.
    rw [hnewline hmem]
    rfl
  · have hall (c : Char) (hc : c ∈ range) : decide (c ≠ '\n') = true :=
      decide_eq_true fun h => hmem (h ▸ hc)
    have hle : byteLength range ≤ byteLength ((range ++ back).takeWhile (· ≠ '\n')) := by
      rw [List.takeWhile_append_of_pos hall, byteLength_append]
      omega
    rw [Nat.min_eq_left hle]

/-- A message is shown with its place and its snippet. -/
theorem SourceMessage.render?_eq_some {files : SourceFiles} {m : SourceMessage}
    {place : FilePosition} {snippet : String} (hknown : m.location ≠ .unknown)
    (hplace : files.filePosition? m.location = some place)
    (hsnippet : files.snippet? m.location m.width = some snippet) :
    m.render? files = some s!"{place}: error: {m.text}\n{snippet}" := by
  rw [render?, if_neg hknown, hplace, hsnippet]
  rfl

/-- An error at a place of a source is shown with the line of this place, and as much of its range
is marked as the line has. -/
theorem render?_of_lineAt (fileName : String) {source : String} {e : ParseError}
    {earlier before after later : List Char}
    (hsize : source.utf8ByteSize < Location.unknownRaw)
    (hline : LineAt source.toList e.location.raw earlier before after later) :
    e.render? (.ofList [(fileName, source)]) = some (diagnosticText fileName
      (1 + earlier.count '\n') before after e.reason.message
      (min e.width (byteLength after))) := by
  have hle : e.location.raw ≤ source.utf8ByteSize := by
    rw [hline.offset_eq, ← byteLength_toList, hline.text_eq, byteLength_append, byteLength_append]
    omega
  have hknown : e.location ≠ .unknown := by
    intro h
    rw [h] at hle
    exact absurd hsize (Nat.not_lt.2 hle)
  have hposition := position?_ofList fileName source hsize hle
  have hplace : (SourceFiles.ofList [(fileName, source)]).filePosition? e.location =
      some ⟨fileName, ⟨1 + earlier.count '\n', 1 + byteLength before⟩⟩ := by
    rw [SourceFiles.filePosition?, hposition, Option.map_some, SourcePosition.filePosition,
      hline.advance_eq]
  have hsnippet : (SourceFiles.ofList [(fileName, source)]).snippet? e.location e.width =
      some (Snippet.text ⟨before, after, e.width⟩) := by
    rw [SourceFiles.snippet?, hposition]
    dsimp only
    rw [hline.ofOffset?_eq, Option.map_some]
  have hshown := SourceMessage.render?_eq_some (m := e.sourceMessage) hknown hplace hsnippet
  rw [Snippet.text, Snippet.mark, Snippet.markWidth] at hshown
  exact hshown

/-- An error whose range lies in one line is shown with the whole range marked. -/
theorem render?_eq (fileName : String) {source : String} {e : ParseError}
    {front range back : List Char} (hsource : source.toList = front ++ (range ++ back))
    (hsize : source.utf8ByteSize < Location.unknownRaw)
    (hlocation : e.location.raw = byteLength front) (hwidth : e.width = byteLength range)
    (hnewline : '\n' ∈ range → range = ['\n']) :
    ∃ earlier before after later,
      LineAt source.toList e.location.raw earlier before after later ∧
      e.render? (.ofList [(fileName, source)]) = some (diagnosticText fileName
        (1 + earlier.count '\n') before after e.reason.message e.width) := by
  obtain ⟨earlier, before, later, hline⟩ := exists_lineAt front (range ++ back)
  rw [← hsource, ← hlocation] at hline
  refine ⟨earlier, before, _, later, hline, ?_⟩
  have hmark : max 1 (min e.width (byteLength ((range ++ back).takeWhile (· ≠ '\n')))) =
      max 1 e.width := by
    rw [hwidth]
    exact markWidth_eq hnewline before
  rw [render?_of_lineAt fileName hsize hline, diagnosticText, hmark]
  rfl

/-! ## Answers -/

/-- A request whose modes are not in conflict is answered by what is read, with errors to be shown
with the source alone. -/
theorem CompilationRequest.compile_eq_mapError (r : CompilationRequest) {mode : BindingMode}
    (hmode : r.flags.bindingMode? = some mode) :
    r.compile = (parse r.source .first r.version mode).mapError (.ofParseError r.files) := by
  rw [compile, hmode]
  dsimp only
  cases parse r.source .first r.version mode <;> rfl

/-- A request whose modes are not in conflict is answered by what is read, or its error is shown at
its line. -/
theorem compile_of_bindingMode? {r : CompilationRequest} {mode : BindingMode}
    (hmode : r.flags.bindingMode? = some mode)
    (hsize : r.source.utf8ByteSize < Location.unknownRaw) :
    (∀ d, r.compile = .ok d ↔ parse r.source .first r.version mode = .ok d) ∧
      ∀ e, parse r.source .first r.version mode = .error e →
        ∃ earlier before after later,
          LineAt r.source.toList e.location.raw earlier before after later ∧
          r.compile = .error (.refused (diagnosticText r.fileName (1 + earlier.count '\n') before
            after e.reason.message e.width)) := by
  have hcompile := r.compile_eq_mapError hmode
  refine ⟨fun d => ?_, fun e h => ?_⟩
  · rw [hcompile]
    cases parse r.source .first r.version mode <;> simp [Except.mapError]
  · obtain ⟨front, range, back, hsource, hlocation, hwidth, hnewline⟩ :=
      exists_span_of_parse hsize h
    obtain ⟨earlier, before, after, later, hline, hrender⟩ :=
      render?_eq r.fileName hsource hsize hlocation hwidth hnewline
    refine ⟨earlier, before, after, later, hline, ?_⟩
    have hfiles : r.files = .ofList [(r.fileName, r.source)] := rfl
    rw [hcompile, h, Except.mapError, CompilationError.ofParseError, hfiles, hrender]

/-- A request that has been built for a source has the flags that have been set last, those of the
modes that have been asked for since, and the version that has been set last. It is refused for its
modes just when both of their bits are set. Otherwise its answer is the signature that is read from
the source, or the error of reading, shown at its line with its whole range marked. There is always
something to show. -/
theorem compile_build (fileName source : String) (steps : List RequestStep)
    (hsize : source.utf8ByteSize < 4294967295) :
    let r := CompilationRequest.build fileName source steps
    (∀ flags later, .withFlags flags :: later <:+ .withFlags ∅ :: steps →
      (∀ flags', .withFlags flags' ∉ later) →
      r.flags.bits = flags.bits ||| RequestStep.modeBits later) ∧
    (∀ version later, .withVersion version :: later <:+ .withVersion .latest :: steps →
      (∀ version', .withVersion version' ∉ later) → r.version = version) ∧
    (r.compile = .error .conflictingModes ↔ r.flags.bits &&& 3 = 3) ∧
    (∀ e, r.compile ≠ .error (.unshowable e)) ∧
    (r.flags.bits &&& 3 ≠ 3 → ∃ mode, r.flags.bindingMode? = some mode ∧
      (∀ d, r.compile = .ok d ↔ parse source .first r.version mode = .ok d) ∧
      ∀ e, parse source .first r.version mode = .error e →
        ∃ earlier before after later,
          LineAt source.toList e.location.raw earlier before after later ∧
          r.compile = .error (.refused (diagnosticText fileName (1 + earlier.count '\n') before
            after e.reason.message e.width))) := by
  intro r
  obtain ⟨hname, hsource⟩ : r.fileName = fileName ∧ r.source = source :=
    CompilationRequest.source_build fileName source steps
  refine ⟨fun flags later => CompilationRequest.flags_build fileName source,
    fun version later => CompilationRequest.version_build fileName source, ?_⟩
  clear_value r
  subst hname hsource
  rw [← FlagSet.isConflicting_iff, ← FlagSet.bindingMode?_eq_none_iff, ne_eq,
    ← FlagSet.isConflicting_iff, ← FlagSet.bindingMode?_eq_none_iff]
  cases hmode : r.flags.bindingMode? with
  | none =>
      have hconflict : r.compile = .error .conflictingModes := by
        rw [CompilationRequest.compile, hmode]
      refine ⟨⟨fun _ => rfl, fun _ => hconflict⟩, fun e h => ?_, fun h => absurd rfl h⟩
      rw [hconflict] at h
      cases h
  | some mode =>
      obtain ⟨hok, herror⟩ := compile_of_bindingMode? hmode hsize
      have hrefused (answer : CompilationError) (h : r.compile = .error answer) :
          ∃ text, answer = .refused text := by
        cases hparse : parse r.source .first r.version mode with
        | ok d => cases h.symm.trans ((hok d).2 hparse)
        | error e =>
            obtain ⟨_, _, _, _, -, htext⟩ := herror e hparse
            exact ⟨_, Except.error.inj (h.symm.trans htext)⟩
      refine ⟨⟨fun h => ?_, fun h => by cases h⟩, fun e h => ?_,
        fun _ => ⟨mode, rfl, hok, herror⟩⟩
      · obtain ⟨text, htext⟩ := hrefused _ h
        cases htext
      · obtain ⟨text, htext⟩ := hrefused _ h
        cases htext

/-- A request whose flags have been in conflict until they were set again, for a source of two lines
with characters of several bytes. The second declaration has no opening word, and the word that is
there is marked as a whole. -/
theorem compile_build_lines :
    "CBV(b0), Größe ⚠\n⚠, x".utf8ByteSize < 4294967295 ∧
      (CompilationRequest.build "rs" "CBV(b0), Größe ⚠\n⚠, x" [.withFlags ⟨3⟩, .asGlobal,
        .withVersion .v1_0, .withFlags ∅, .asLocal]).compile = .error (.refused
          ("rs:1:10: error: Unexpected token 'Gr' when parsing root signature\n" ++
            "CBV(b0), Größe ⚠\n" ++
            "         ^~\n")) := by
  have hsize : "CBV(b0), Größe ⚠\n⚠, x".utf8ByteSize < 4294967295 := by decide
  obtain ⟨hflags, hversion, -, -, hanswer⟩ := compile_build "rs" "CBV(b0), Größe ⚠\n⚠, x"
    [.withFlags ⟨3⟩, .asGlobal, .withVersion .v1_0, .withFlags ∅, .asLocal] hsize
  have hbits := hflags ∅ [.asLocal] ⟨[.withFlags ∅, .withFlags ⟨3⟩, .asGlobal,
    .withVersion .v1_0], rfl⟩ (by simp)
  have hlast := hversion .v1_0 [.withFlags ∅, .asLocal] ⟨[.withVersion .latest, .withFlags ⟨3⟩,
    .asGlobal], rfl⟩ (by simp)
  obtain ⟨mode, hmode, -, herror⟩ := hanswer (by rw [hbits]; decide)
  obtain rfl : BindingMode.localMode = mode := Option.some.inj hmode
  have hparse : parse "CBV(b0), Größe ⚠\n⚠, x" .first .v1_0 .localMode =
      .error ⟨.unexpectedDeclaration "Gr", ⟨9⟩, 2⟩ := by
    rw [parse_eq_error_iff]
    decide +kernel
  rw [hlast] at herror
  obtain ⟨earlier, before, after, later, hline, hcompile⟩ := herror _ hparse
  have hsnippet : some (⟨"CBV(b0), ".toList, "Größe ⚠".toList, 2⟩ : Snippet) =
      some ⟨before, after, 2⟩ :=
    Eq.trans (by decide +kernel) (hline.ofOffset?_eq 2)
  have hplace : (⟨1, 10⟩ : LineColumn) = ⟨1 + earlier.count '\n', 1 + byteLength before⟩ :=
    Eq.trans (by decide +kernel) hline.advance_eq
  cases hsnippet
  have htext : diagnosticText "rs" 1 "CBV(b0), ".toList "Größe ⚠".toList
      (Reason.unexpectedDeclaration "Gr").message 2 =
        "rs:1:10: error: Unexpected token 'Gr' when parsing root signature\n" ++
          "CBV(b0), Größe ⚠\n" ++ "         ^~\n" := by
    decide +kernel
  rw [← (LineColumn.mk.inj hplace).1] at hcompile
  exact ⟨hsize, htext ▸ hcompile⟩

end RootSignature
