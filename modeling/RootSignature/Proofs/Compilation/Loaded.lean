import RootSignature.Proofs.Compilation.Diagnostics
import RootSignature.Proofs.Reader.Moved

/-!
# Sources that are loaded with others

A source is read alike wherever it stands, and an error moves along with it (`parse_ok_moved`,
`parse_error_moved`). The texts that are loaded together have blocks of locations of their own, so
the place of an error is found in its source again, at the offset that it has if the source stands
alone (`Blocks.position?_moved`). What is shown of an error depends on this source and this offset
(`ParseError.render?_congr`).

Thus what is said about a source does not depend on what else is loaded (`compile_loaded`).
-/

namespace RootSignature

variable {source : String} {base : Location} {version : Version} {mode : BindingMode}

/-! ## One source in two places -/

/-- A source is accepted wherever it stands, with the same answer. -/
theorem parse_ok_moved (base' : Location) {d : VersionedSignature}
    (h : parse source base version mode = .ok d) : parse source base' version mode = .ok d :=
  parse_eq_ok_of_tokens_eq (tokens_moved base base' 0 (readableText source)) h

/-- A source is refused wherever it stands, and the error moves along. -/
theorem parse_error_moved (base' : Location) {e : ParseError}
    (h : parse source base version mode = .error e) :
    ∃ e', parse source base' version mode = .error e' ∧ e.Moved base base' 0 e' := by
  rw [parse_eq_error_iff] at h
  obtain ⟨e', he', hmoved⟩ : ∃ e', (readDeclarations (mode.dialect version)
      (base'.offset (0 + byteLength (readableText source))) false
      (lexemesFrom base' 0 (readableText source))).failure? = some e' ∧
      e.Moved base base' 0 e' := readDeclarations_moved h
  rw [Nat.zero_add] at he'
  exact ⟨e', (parse_eq_error_iff ..).2 he', hmoved⟩

/-! ## The place of an error -/

/-- An error is not located behind the end of its source. -/
theorem raw_location_le_of_parse {e : ParseError}
    (hsize : source.utf8ByteSize < Location.unknownRaw)
    (h : parse source .first version mode = .error e) :
    e.location.raw ≤ source.utf8ByteSize := by
  obtain ⟨front, range, back, hsource, hlocation, -, -⟩ := exists_span_of_parse hsize h
  rw [hlocation, ← byteLength_toList, hsource, byteLength_append]
  exact Nat.le_add_right _ _

/-- The place of an error in a source that is loaded with others is in this source, at the offset
that the error has in the source alone. -/
theorem Blocks.position?_moved {s : SourceFiles} {stop i : Nat} {f : SourceFile}
    {e e₀ : ParseError} (h : Blocks 0 s.files stop) (hstop : stop ≤ Location.unknownRaw)
    (hf : s.files[i]? = some f) (he₀ : parse f.text .first version mode = .error e₀)
    (hmoved : e.Moved f.base .first 0 e₀) :
    s.position? e.location = some ⟨i, f, e₀.location.raw⟩ := by
  obtain ⟨k, hk, hk₀⟩ := hmoved.location
  have hraw : e₀.location.raw = k % UInt32.size := by
    rw [hk₀, Location.raw_first_offset, Nat.zero_add]
  have hle := raw_location_le_of_parse (h.size_lt hstop (List.mem_of_getElem? hf)) he₀
  rw [hraw] at hle ⊢
  rw [hk, ← Location.offset_mod]
  exact h.position?_offset hstop hf hle

/-! ## What is shown of an error -/

/-- What is shown of an error depends on the error and on the place in a text that it stands for,
not on where the text is. -/
theorem ParseError.render?_congr {s s' : SourceFiles} {e e' : ParseError} {p p' : SourcePosition}
    (hreason : e'.reason = e.reason) (hwidth : e'.width = e.width)
    (hknown : e.location ≠ .unknown) (hknown' : e'.location ≠ .unknown)
    (hp : s.position? e.location = some p) (hp' : s'.position? e'.location = some p')
    (hname : p'.file.name = p.file.name) (htext : p'.file.text = p.file.text)
    (hoffset : p'.offset = p.offset) : e'.render? s' = e.render? s := by
  have hplace : s'.filePosition? e'.location = s.filePosition? e.location := by
    rw [SourceFiles.filePosition?, SourceFiles.filePosition?, hp, hp', Option.map_some,
      Option.map_some, SourcePosition.filePosition, SourcePosition.filePosition, hname, htext,
      hoffset]
  have hsnippet : s'.snippet? e'.location e'.width = s.snippet? e.location e.width := by
    rw [SourceFiles.snippet?, SourceFiles.snippet?, hp, hp']
    dsimp only
    rw [htext, hoffset, hwidth]
  unfold ParseError.render? SourceMessage.render? ParseError.sourceMessage
  dsimp only
  rw [if_neg hknown, if_neg hknown', hreason, hplace, hsnippet]

/-- The text of an error is what is shown of it. -/
theorem CompilationError.ofParseError_eq_refused_iff {files : SourceFiles} {e : ParseError}
    {text : String} : ofParseError files e = refused text ↔ e.render? files = some text := by
  unfold ofParseError
  cases e.render? files <;> simp

/-- What a request is refused with is what is shown of the error in the source alone. -/
theorem CompilationRequest.exists_refused {r : CompilationRequest} {e : ParseError}
    (hmode : r.flags.bindingMode? = some mode)
    (hsize : r.source.utf8ByteSize < Location.unknownRaw)
    (h : parse r.source .first r.version mode = .error e) :
    ∃ text, r.compile = .error (.refused text) ∧ e.render? r.files = some text := by
  obtain ⟨_, _, _, _, -, hrefused⟩ := (compile_of_bindingMode? hmode hsize).2 e h
  refine ⟨_, hrefused, CompilationError.ofParseError_eq_refused_iff.1 ?_⟩
  rw [r.compile_eq_mapError hmode, h] at hrefused
  exact Except.error.inj hrefused

/-! ## Sources among others -/

/-- What is said about a source that is loaded with others is what compilation says about it alone:
it is accepted with the same answer, and the error that it is refused with is shown with the same
text. The place of the error is in this source, at the offset that the error has at the first
location of all. -/
theorem compile_loaded (texts : List (String × String)) (hsize : blockLength texts ≤ 4294967295)
    (i : Nat) (f : SourceFile) (hf : (SourceFiles.ofList texts).files[i]? = some f)
    (version : Version) (flags : FlagSet CompilationFlag) (hflags : flags.isConflicting = false) :
    let s := SourceFiles.ofList texts
    let r : CompilationRequest := ⟨f.name, f.text, version, flags⟩
    ∃ mode, flags.bindingMode? = some mode ∧
      (∀ d, parse f.text f.base version mode = .ok d ↔ r.compile = .ok d) ∧
      ∀ e, parse f.text f.base version mode = .error e →
        (∃ text, e.render? s = some text ∧ r.compile = .error (.refused text)) ∧
        ∃ e₀, parse f.text .first version mode = .error e₀ ∧ e₀.reason = e.reason ∧
          e₀.width = e.width ∧ s.position? e.location = some ⟨i, f, e₀.location.raw⟩ := by
  intro s r
  have hblocks : Blocks 0 s.files (blockLength texts) := blocks_ofList hsize
  have hfile : f.size < Location.unknownRaw := hblocks.size_lt hsize (List.mem_of_getElem? hf)
  obtain ⟨mode, hmode⟩ : ∃ mode, flags.bindingMode? = some mode := by
    rw [← Option.isSome_iff_exists, Option.isSome_iff_ne_none, ne_eq,
      FlagSet.bindingMode?_eq_none_iff, hflags]
    exact Bool.false_ne_true
  refine ⟨mode, hmode, fun d => ?_, fun e he => ?_⟩
  · rw [(compile_of_bindingMode? (r := r) hmode hfile).1 d]
    exact ⟨parse_ok_moved .first, parse_ok_moved f.base⟩
  · obtain ⟨e₀, he₀, hmoved⟩ := parse_error_moved .first he
    have hposition := hblocks.position?_moved hsize hf he₀ hmoved
    obtain ⟨text, hcompile, hrender⟩ := CompilationRequest.exists_refused (r := r) hmode hfile he₀
    have hle := raw_location_le_of_parse hfile he₀
    have hknown : e.location ≠ .unknown := by
      intro hunknown
      have hraw := (hblocks.position?_isSome_iff hsize).1 ⟨_, hposition⟩
      rw [hunknown] at hraw
      exact absurd hsize (Nat.not_le.2 hraw)
    have hknown₀ : e₀.location ≠ .unknown := by
      intro hunknown
      rw [hunknown] at hle
      exact absurd hfile (Nat.not_lt.2 hle)
    have hshown : e₀.render? r.files = e.render? s :=
      ParseError.render?_congr hmoved.reason hmoved.width hknown hknown₀ hposition
        (position?_ofList f.name f.text hfile hle) rfl rfl rfl
    exact ⟨⟨text, hshown ▸ hrender, hcompile⟩, e₀, he₀, hmoved.reason, hmoved.width, hposition⟩

/-- A source that ends too early is refused at its end, the last location of its block. -/
theorem compile_loaded_srv :
    let texts := [("a.rs", "CBV(b0)"), ("b.rs", "SRV("), ("c.rs", "")]
    let s := SourceFiles.ofList texts
    let e : ParseError := ⟨.unexpectedToken "", ⟨12⟩, 0⟩
    parse "SRV(" ⟨8⟩ .v1_1 .unspecified = .error e ∧
      (∃ text, e.render? s = some text ∧
        CompilationRequest.compile ⟨"b.rs", "SRV(", .v1_1, ∅⟩ = .error (.refused text)) ∧
      s.position? ⟨12⟩ = some ⟨1, ⟨"b.rs", "SRV(", ⟨8⟩⟩, 4⟩ := by
  intro texts s e
  have he : parse "SRV(" ⟨8⟩ .v1_1 .unspecified = .error e := by
    rw [parse_eq_error_iff]
    decide +kernel
  have halone : parse "SRV(" .first .v1_1 .unspecified =
      .error ⟨.unexpectedToken "", ⟨4⟩, 0⟩ := by
    rw [parse_eq_error_iff]
    decide +kernel
  obtain ⟨mode, hmode, -, herror⟩ :=
    compile_loaded texts (by decide) 1 ⟨"b.rs", "SRV(", ⟨8⟩⟩ rfl .v1_1 ∅ rfl
  obtain rfl : BindingMode.unspecified = mode := Option.some.inj hmode
  obtain ⟨hshown, e₀, he₀, -, -, hposition⟩ := herror e he
  obtain rfl := Except.error.inj (halone.symm.trans he₀)
  exact ⟨he, hshown, hposition⟩

end RootSignature
