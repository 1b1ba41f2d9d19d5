import RootSignature.Proofs.Compilation.Diagnostics
import RootSignature.Proofs.Source.Places
import RootSignature.Proofs.Token.Lengths

/-!
# The mark under a line

Below the line of an error there is a mark under the range of the error. It is indented by the
characters before the range, but it is as long as the range has bytes. So it stays within the line
in all texts of ASCII characters, and it may go on behind the line where the range is a wider
character: an error leaves the line if it is at a character that has more bytes than there are
characters from there to the end of the line (`underline_within_iff`).
-/

namespace RootSignature

/-! ## The place of an error -/

/-- What an error can be about, in front of the rest of the source: the end of what is read, an
ASCII text, or a single character. -/
inductive ErrorRange : List Char → List Char → Prop where
  | stop {back : List Char} (hback : ∀ c ∈ back.head?, c = '\x00') : ErrorRange [] back
  | ascii {range back : List Char} (hne : range ≠ []) (hrange : ∀ c ∈ range, c.utf8Size = 1) :
      ErrorRange range back
  | single (c : Char) (back : List Char) : ErrorRange [c] back

/-- What is read of a source ends before a NUL character, or with the source. -/
theorem exists_readableText_append (source : String) :
    ∃ rest, source.toList = readableText source ++ rest ∧ ∀ c ∈ rest.head?, c = '\x00' := by
  refine ⟨_, List.takeWhile_append_dropWhile.symm, fun c hc => ?_⟩
  have hhead := List.head?_dropWhile_not (· ≠ '\x00') source.toList
  rw [hc] at hhead
  simpa using hhead

/-- An error of parsing is about such a range of the source, and the range is within a line. -/
theorem exists_errorRange_of_parse {source : String} {version : Version} {mode : BindingMode}
    {e : ParseError} (hsize : source.utf8ByteSize < Location.unknownRaw)
    (h : parse source .first version mode = .error e) :
    ∃ front range back, source.toList = front ++ (range ++ back) ∧
      e.location.raw = byteLength front ∧ e.width = byteLength range ∧
      ErrorRange range back ∧ ('\n' ∈ range → range = ['\n']) := by
  obtain ⟨reason, l, hl, rfl⟩ := (blame_of_parse h).within
  rcases List.mem_append.1 hl with hmem | hmem
  · obtain ⟨before, after, hsource, hlocation, -⟩ := exists_split_of_mem_lexemes hl
    have hraw := raw_first_of_split hsize hsource hlocation
    have hrange : ErrorRange l.text.toList after := by
      rcases ascii_or_singleton_of_mem hmem with ⟨hne, hascii⟩ | ⟨c, hc⟩
      · exact .ascii hne hascii
      · rw [hc]
        exact .single c after
    exact ⟨before, l.text.toList, after, hsource, hraw, (byteLength_toList l.text).symm, hrange,
      text_eq_of_newline_mem hmem⟩
  · obtain rfl := List.mem_singleton.1 hmem
    obtain ⟨rest, hsource, hrest⟩ := exists_readableText_append source
    exact ⟨readableText source, [], rest, hsource, raw_first_of_split hsize hsource rfl, rfl,
      .stop hrest, fun hnewline => by cases hnewline⟩

/-- The rest of the line of a place is the text behind the place, up to a newline. -/
theorem LineAt.after_eq {text earlier before after later front back : List Char} {offset : Nat}
    (h : LineAt text offset earlier before after later) (htext : text = front ++ back)
    (hoffset : offset = byteLength front) : after = back.takeWhile (· ≠ '\n') := by
  obtain ⟨earlier', before', later', h'⟩ := exists_lineAt front back
  rw [← htext, ← hoffset] at h'
  have hsnippets := (h.ofOffset?_eq 0).symm.trans (h'.ofOffset?_eq 0)
  exact (Snippet.mk.inj (Option.some.inj hsnippets)).2.1

/-- The bytes of the range are no more than the characters of the rest of the line, or one, if and
only if the first character behind the place has no more bytes than there are such characters. -/
theorem ErrorRange.byteLength_le_iff {range back : List Char} (h : ErrorRange range back)
    (hnewline : '\n' ∈ range → range = ['\n']) :
    let after := (range ++ back).takeWhile (· ≠ '\n')
    byteLength range ≤ max 1 after.length ↔ ∀ c ∈ after.head?, c.utf8Size ≤ after.length := by
  intro after
  by_cases hmem : '\n' ∈ range
  · -- A newline ends the line: there is nothing behind its place.
    have hafter : after = [] := by
      show (range ++ back).takeWhile (· ≠ '\n') = []
      rw [hnewline hmem]
      rfl
    rw [hnewline hmem, hafter]
    exact iff_of_true (Nat.le_refl 1) nofun
  · have hall (c : Char) (hc : c ∈ range) : decide (c ≠ '\n') = true :=
      decide_eq_true fun h => hmem (h ▸ hc)
    have hafter : after = range ++ back.takeWhile (· ≠ '\n') :=
      List.takeWhile_append_of_pos hall
    cases h with
    | stop hback =>
        refine iff_of_true (Nat.zero_le _) fun c hc => ?_
        have hlength : 1 ≤ after.length := List.length_pos_of_mem (List.mem_of_mem_head? hc)
        rw [hafter, List.nil_append, List.head?_takeWhile] at hc
        rw [hback c (Option.mem_filter_iff.1 hc).1]
        exact hlength
    | ascii hne hrange =>
        obtain ⟨c, cs, rfl⟩ := List.exists_cons_of_ne_nil hne
        have hbytes : byteLength (c :: cs) ≤ (c :: cs).length := byteLength_le_length_iff.2 hrange
        have hlength : after.length = (c :: cs).length + (back.takeWhile (· ≠ '\n')).length := by
          rw [hafter, List.length_append]
        refine iff_of_true (by omega) fun d hd => ?_
        rw [hafter] at hd
        obtain rfl : c = d := Option.some.inj hd
        rw [hrange c (List.mem_cons_self ..), hlength, List.length_cons]
        omega
    | single c =>
        have hlength : after.length = 1 + (back.takeWhile (· ≠ '\n')).length := by
          rw [hafter, List.length_append]
          rfl
        have hhead : after.head? = some c := by
          rw [hafter]
          rfl
        simp only [hhead, Option.mem_some_iff, forall_eq', byteLength_cons, byteLength_nil]
        omega

/-! ## The mark -/

/-- The mark under a range of so many bytes that starts so many characters into its line. -/
def underline (column width : Nat) : List Char :=
  List.replicate column ' ' ++ '^' :: List.replicate (max 1 width - 1) '~'

/-- A mark is as long as its indentation and its width, and marks one character at least. -/
theorem length_underline (column width : Nat) :
    (underline column width).length = column + max 1 width := by
  rw [underline, List.length_append, List.length_replicate, List.length_cons,
    List.length_replicate]
  omega

/-- A text ends with a line and the mark under it. -/
def Shows (text : String) (line mark : List Char) : Prop :=
  ∃ front, text.toList.splitOn '\n' = front ++ [line, mark, []]

/-- A mark under a line, which is cut at the place of an error, is no longer than the line, or one
character longer if the error is at the end of the line. -/
def MarkWithin (before after mark : List Char) : Prop :=
  mark.length ≤ (before ++ after).length ∨ after = [] ∧ mark.length = (before ++ after).length + 1

/-- A mark stays within its line if it is as long as the rest of the line. Behind the end of the
line there is place for one character. -/
theorem markWithin_underline_iff (before after : List Char) (width : Nat) :
    MarkWithin before after (underline before.length width) ↔ width ≤ max 1 after.length := by
  rw [MarkWithin, length_underline, List.length_append]
  cases after with
  | nil =>
      simp only [List.length_nil, true_and]
      omega
  | cons c after =>
      simp only [List.length_cons, reduceCtorEq, false_and, or_false]
      omega

/-- What is shown of an error ends with its line and its mark. -/
theorem shows_diagnosticText (fileName : String) (line : Nat) {before after : List Char}
    (hbefore : '\n' ∉ before) (hafter : '\n' ∉ after) (message : String) (width : Nat) :
    Shows (diagnosticText fileName line before after message width) (before ++ after)
      (underline before.length width) := by
  have hline : '\n' ∉ before ++ after := by
    rw [List.mem_append]
    exact not_or.2 ⟨hbefore, hafter⟩
  have hmark : '\n' ∉ underline before.length width := by
    intro h
    rcases List.mem_append.1 h with h | h
    · cases (List.mem_replicate.1 h).2
    · rcases List.mem_cons.1 h with h | h
      · cases h
      · cases (List.mem_replicate.1 h).2
  obtain ⟨header, hheader⟩ : ∃ header : List Char,
      (diagnosticText fileName line before after message width).toList =
        header ++ '\n' :: (before ++ after ++ '\n' ::
          (underline before.length width ++ ['\n'])) := by
    refine ⟨(s!"{fileName}:{line}:{1 + byteLength before}: error: {message}").toList, ?_⟩
    simp [diagnosticText, underline]
    rfl
  refine ⟨header.splitOn '\n', ?_⟩
  rw [hheader, List.splitOn_append_cons_self, List.splitOn_append_cons_self_of_not_mem hline,
    List.splitOn_append_cons_self_of_not_mem hmark]
  rfl

/-- A text that is reported without having been read is shown with its first line, and all of this
line is marked. -/
theorem reportUnparsed_eq (fileName : String) {source : String}
    (hsize : source.utf8ByteSize < Location.unknownRaw) :
    ∃ after later, LineAt source.toList 0 [] [] after later ∧
      reportUnparsed fileName source = .refused (diagnosticText fileName 1 [] after
        (Reason.unparsed source).message (byteLength after)) := by
  have hline : LineAt source.toList 0 [] [] (source.toList.takeWhile (· ≠ '\n'))
      (source.toList.dropWhile (· ≠ '\n')) :=
    ⟨List.takeWhile_append_dropWhile.symm, rfl, List.not_mem_nil, newline_notMem_takeWhile _,
      .inl rfl, dropWhile_newline _⟩
  have hwidth : min source.utf8ByteSize (byteLength (source.toList.takeWhile (· ≠ '\n'))) =
      byteLength (source.toList.takeWhile (· ≠ '\n')) := by
    have hle := congrArg byteLength hline.text_eq
    rw [byteLength_toList] at hle
    simp only [List.nil_append, byteLength_append] at hle
    omega
  have hrender := render?_of_lineAt (e := .ofUnparsed source .first) fileName hsize hline
  refine ⟨_, _, hline, ?_⟩
  rw [reportUnparsed, CompilationError.ofParseError, hrender]
  dsimp only [ParseError.ofUnparsed]
  rw [hwidth]
  rfl

/-- Every refusal is shown with the line of its error and a mark under it. The mark stays within the
line unless the error is at a character that has more bytes than there are characters from there to
the end of the line. The report of a text that has not been read marks its first line, and the mark
stays within this line just if the line has ASCII characters only. Texts are too large to be loaded
if there is not a number for every location of them. -/
theorem underline_within_iff (r : CompilationRequest) (text fileName source : String) :
    (r.source.utf8ByteSize < 4294967295 → r.compile = .error (.refused text) →
      ∃ mode e earlier before after later,
        r.flags.bindingMode? = some mode ∧ parse r.source .first r.version mode = .error e ∧
        LineAt r.source.toList e.location.raw earlier before after later ∧
        Shows text (before ++ after) (underline before.length e.width) ∧
        (MarkWithin before after (underline before.length e.width) ↔
          ∀ c ∈ after.head?, c.utf8Size ≤ after.length)) ∧
    (source.utf8ByteSize < 4294967295 → ∃ text after later,
      reportUnparsed fileName source = .refused text ∧
      LineAt source.toList 0 [] [] after later ∧
      Shows text after (underline 0 (byteLength after)) ∧
      (MarkWithin [] after (underline 0 (byteLength after)) ↔ ∀ c ∈ after, c.utf8Size = 1)) := by
  refine ⟨fun hsize h => ?_, fun hsize => ?_⟩
  · cases hmode : r.flags.bindingMode? with
    | none =>
        rw [CompilationRequest.compile, hmode] at h
        cases h
    | some mode =>
        obtain ⟨hok, herror⟩ := compile_of_bindingMode? hmode hsize
        cases hparse : parse r.source .first r.version mode with
        | ok d => cases h.symm.trans ((hok d).2 hparse)
        | error e =>
            obtain ⟨earlier, before, after, later, hline, hcompile⟩ := herror e hparse
            obtain ⟨front, range, back, hsource, hlocation, hwidth, hrange, hnewline⟩ :=
              exists_errorRange_of_parse hsize hparse
            obtain rfl := CompilationError.refused.inj (Except.error.inj (h.symm.trans hcompile))
            refine ⟨mode, e, earlier, before, after, later, rfl, hparse, hline,
              shows_diagnosticText _ _ hline.before_newline hline.after_newline _ _, ?_⟩
            rw [markWithin_underline_iff, hwidth, hline.after_eq hsource hlocation]
            exact hrange.byteLength_le_iff hnewline
  · obtain ⟨after, later, hline, hreport⟩ := reportUnparsed_eq fileName hsize
    refine ⟨_, after, later, hreport, hline,
      shows_diagnosticText _ _ hline.before_newline hline.after_newline _ _, ?_⟩
    have hwithin := markWithin_underline_iff [] after (byteLength after)
    rw [List.length_nil] at hwithin
    rw [hwithin, ← byteLength_le_length_iff]
    cases after with
    | nil => decide
    | cons c after =>
        rw [List.length_cons]
        omega

/-- A source of one character that takes three bytes is refused at this character. -/
theorem parse_warningSign : parse "⚠" .first .v1_1 .unspecified =
    .error ⟨.unexpectedDeclaration "⚠", .first, 3⟩ := by
  rw [parse_eq_error_iff]
  decide +kernel

/-- The answer to this source marks three characters. -/
theorem compile_warningSign :
    (⟨"rs", "⚠", .v1_1, ∅⟩ : CompilationRequest).compile =
      .error (.refused (diagnosticText "rs" 1 [] ['⚠']
        (Reason.unexpectedDeclaration "⚠").message 3)) := by
  have hmode : (⟨"rs", "⚠", .v1_1, ∅⟩ : CompilationRequest).flags.bindingMode? =
      some .unspecified := by decide
  have hline : LineAt "⚠".toList 0 [] [] ['⚠'] [] :=
    ⟨rfl, rfl, List.not_mem_nil, by decide, .inl rfl, .inl rfl⟩
  have hrender := render?_of_lineAt (e := ⟨.unexpectedDeclaration "⚠", .first, 3⟩) "rs"
    (by decide) hline
  rw [CompilationRequest.compile_eq_mapError _ hmode, parse_warningSign, Except.mapError,
    CompilationError.ofParseError]
  dsimp only [CompilationRequest.files]
  rw [hrender]
  rfl

/-- The mark of this answer is longer than its line by two characters, so marks are not bounded by
their lines. -/
theorem underline_leaves_line :
    ¬ ∀ (r : CompilationRequest) (text : String) (line mark : List Char),
      r.compile = .error (.refused text) → Shows text line mark →
      mark.length ≤ line.length + 1 := by
  intro h
  have hshows : Shows (diagnosticText "rs" 1 [] ['⚠'] (Reason.unexpectedDeclaration "⚠").message 3)
      ['⚠'] (underline 0 3) := shows_diagnosticText "rs" 1 List.not_mem_nil (by decide) _ 3
  have hle := h _ _ _ _ compile_warningSign hshows
  revert hle
  decide

/-- The error of this source is at a character of three bytes with no other behind it. The report of
the source as a whole marks as much. -/
theorem underline_within_iff_warningSign :
    "⚠".utf8ByteSize < 4294967295 ∧
      (∃ text, (⟨"rs", "⚠", .v1_1, ∅⟩ : CompilationRequest).compile = .error (.refused text) ∧
        Shows text ['⚠'] (underline 0 3) ∧ ¬ MarkWithin [] ['⚠'] (underline 0 3)) ∧
      ∃ text, reportUnparsed "rs" "⚠" = .refused text ∧
        Shows text ['⚠'] (underline 0 3) ∧ ¬ MarkWithin [] ['⚠'] (underline 0 3) := by
  have hsize : "⚠".utf8ByteSize < 4294967295 := by decide
  obtain ⟨hcompile, hreport⟩ := underline_within_iff ⟨"rs", "⚠", .v1_1, ∅⟩
    (diagnosticText "rs" 1 [] ['⚠'] (Reason.unexpectedDeclaration "⚠").message 3) "rs" "⚠"
  refine ⟨hsize, ?_, ?_⟩
  · obtain ⟨mode, e, earlier, before, after, later, hmode, hparse, hline, hshows, hwithin⟩ :=
      hcompile hsize compile_warningSign
    obtain rfl : BindingMode.unspecified = mode := Option.some.inj hmode
    obtain rfl := Except.error.inj (parse_warningSign.symm.trans hparse)
    have hsnippet : some (⟨[], ['⚠'], 0⟩ : Snippet) = some ⟨before, after, 0⟩ :=
      hline.ofOffset?_eq 0
    cases hsnippet
    refine ⟨_, compile_warningSign, hshows, fun h => ?_⟩
    exact absurd (hwithin.1 h '⚠' rfl) (by decide)
  · obtain ⟨text, after, later, htext, hline, hshows, hwithin⟩ := hreport hsize
    have hsnippet : some (⟨[], ['⚠'], 0⟩ : Snippet) = some ⟨[], after, 0⟩ :=
      hline.ofOffset?_eq 0
    cases hsnippet
    refine ⟨text, htext, hshows, fun h => ?_⟩
    exact absurd (hwithin.1 h '⚠' (List.mem_singleton_self _)) (by decide)

end RootSignature
