import RootSignature.Proofs.Dialect.Unflagged
import RootSignature.Proofs.Token.Tiling

/-!
# Errors are anchored at lexemes

A lexeme of a source stands where its location says: the source has its text there
(`exists_split_of_mem_lexemes`). Since every error blames a lexeme, or the end, its place is a place
in the source, and the text that it quotes is what the source has in this place
(`parse_error_anchored`).
-/

namespace RootSignature

/-! ## Lexemes in their source -/

/-- What is read is the front of a source. -/
theorem readableText_prefix (source : String) :
    ∃ rest, source.toList = readableText source ++ rest :=
  ⟨_, List.takeWhile_append_dropWhile.symm⟩

/-- A lexeme cuts its source in two at its location, where its own text begins, and the part of the
source that is read reaches at least to the end of this text. So does the end of the text. -/
theorem exists_split_of_mem_lexemes {source : String} {base : Location} {l : Lexeme}
    (hl : l ∈ (TokenStream.ofSource source base).lexemes ++
      [.endAt (TokenStream.ofSource source base).stop]) :
    ∃ before after, source.toList = before ++ (l.text.toList ++ after) ∧
      l.location = base.offset (byteLength before) ∧
      byteLength before + l.width ≤ byteLength (readableText source) := by
  obtain ⟨rest, hrest⟩ := readableText_prefix source
  rcases List.mem_append.1 hl with hl | hl
  · obtain ⟨front, back, hls⟩ := List.append_of_mem hl
    obtain ⟨before, after, htext, -, hloc, -⟩ :=
      (lexemesFrom_tiles base 0 (readableText source)).cut hls
    refine ⟨before, after ++ rest, ?_, ?_, ?_⟩
    · rw [hrest, htext, List.append_assoc, List.append_assoc]
    · rw [hloc, Nat.zero_add]
    · rw [htext, byteLength_append, byteLength_append, byteLength_toList, Lexeme.width]
      omega
  · obtain rfl := List.mem_singleton.1 hl
    exact ⟨readableText source, rest, hrest, rfl, Nat.le_refl _⟩

/-- The number of a location in a source is that of the first byte and as many more as there are
bytes before the location, if there is a number for every location of the source. -/
theorem raw_of_split {source : String} {base l : Location} {before after : List Char}
    (hbase : base ≠ .unknown) (hsize : base.raw + source.utf8ByteSize ≤ Location.unknownRaw)
    (hsource : source.toList = before ++ after) (hl : l = base.offset (byteLength before)) :
    l.raw = base.raw + byteLength before := by
  have hbytes : byteLength before ≤ source.utf8ByteSize := by
    rw [← byteLength_toList, hsource, byteLength_append]
    exact Nat.le_add_right _ _
  rw [hl, Location.raw_offset_of_le hbase (Nat.le_trans (Nat.add_le_add_left hbytes _) hsize)]

/-- In a source at the first location of all, it is the number of bytes before the location. -/
theorem raw_first_of_split {source : String} {l : Location} {before after : List Char}
    (hsize : source.utf8ByteSize < Location.unknownRaw) (hsource : source.toList = before ++ after)
    (hl : l = Location.first.offset (byteLength before)) : l.raw = byteLength before := by
  have hroom : Location.first.raw + source.utf8ByteSize ≤ Location.unknownRaw := by
    rw [show Location.first.raw = 0 from rfl, Nat.zero_add]
    exact Nat.le_of_lt hsize
  exact (raw_of_split (by decide) hroom hsource hl).trans (Nat.zero_add _)

/-- The slice of a source at the place of a part of it is this part. -/
theorem extract_of_split {source text : String} {before after : List Char}
    (h : source.toList = before ++ (text.toList ++ after)) :
    String.Pos.Raw.extract source ⟨byteLength before⟩
      ⟨byteLength before + text.utf8ByteSize⟩ = text := by
  have hslice := extract_byteLength before text.toList after
  rwa [← h, byteLength_toList, String.ofList_toList, String.ofList_toList] at hslice

/-- A lexeme of a stream, or its end, is an answer of the stream before which the end has not been
answered. -/
theorem TokenStream.exists_answer_of_mem {source : String} {base : Location} {l : Lexeme}
    (hl : l ∈ (TokenStream.ofSource source base).lexemes ++
      [.endAt (TokenStream.ofSource source base).stop]) :
    ∃ n, (TokenStream.ofSource source base).answer n = l ∧
      ∀ i < n, ((TokenStream.ofSource source base).answer i).token ≠ .eof := by
  have htiles := lexemesFrom_tiles base 0 (readableText source)
  have hbefore (i : Nat) (hi : i < (TokenStream.ofSource source base).lexemes.length) :
      (TokenStream.ofSource source base).answer i =
        (TokenStream.ofSource source base).lexemes[i] := by
    rw [answer_eq, List.getElem?_eq_getElem hi, Option.getD_some]
  have hne (i : Nat) (hi : i < (TokenStream.ofSource source base).lexemes.length) :
      ((TokenStream.ofSource source base).answer i).token ≠ .eof := by
    rw [hbefore i hi]
    exact htiles.ne_eof (List.getElem_mem hi)
  rcases List.mem_append.1 hl with hl | hl
  · obtain ⟨n, hn, rfl⟩ := List.getElem_of_mem hl
    exact ⟨n, hbefore n hn, fun i hi => hne i (Nat.lt_trans hi hn)⟩
  · obtain rfl := List.mem_singleton.1 hl
    refine ⟨(TokenStream.ofSource source base).lexemes.length, ?_, hne⟩
    rw [answer_eq, List.getElem?_eq_none (Nat.le_refl _), Option.getD_none]

/-! ## What errors quote -/

/-- The text that a reason quotes, if it quotes what was found. -/
def Reason.found? : Reason → Option String
  | unexpectedToken found | unexpectedDeclaration found | expectedComma found
  | invalidFlagNumber _ found | expectedFlag _ found | expectedRegister found
  | incorrectRegisterClass found _ | expectedFloat found | unexpectedValue _ found => some found
  | rootFlagsRedefined | duplicateParameter _ | missingParameter _ | flagsNotSupported _ _
  | localFlagInGlobalSignature | conversionFailed _ | unparsed _ => none

/-- A reason that fits a lexeme quotes its text, if it quotes one. -/
theorem Reason.Fits.found_eq {dialect : Dialect} {l : Lexeme} {reason : Reason}
    (h : reason.Fits dialect l) {found : String} (hfound : reason.found? = some found) :
    found = l.text := by
  cases reason with
  | unexpectedToken | unexpectedDeclaration | expectedComma | expectedFlag | expectedFloat
  | unexpectedValue =>
      cases hfound
      exact h
  | invalidFlagNumber | incorrectRegisterClass =>
      cases hfound
      exact h.1
  | expectedRegister => exact h.elim
  | _ => cases hfound

/-- Every error of parsing, or of reading the declarations alone, is the place of a lexeme of the
source, or of its end. The place lies in the part of the source that is read, and the slice of the
source at it is the text of the lexeme; an error that quotes a text quotes this one. -/
theorem parse_error_anchored (source : String) (base : Location) (version : Version)
    (mode : BindingMode) (hsize : base.raw + source.utf8ByteSize < 4294967295) (e : ParseError)
    (h : parse source base version mode = .error e ∨
      (readSource source base version mode).signature = .error e) :
    ∃ n start, (∀ i < n, ((TokenStream.ofSource source base).answer i).token ≠ .eof) ∧
      e.location = ((TokenStream.ofSource source base).answer n).location ∧
      e.width = ((TokenStream.ofSource source base).answer n).width ∧
      e.location.raw = base.raw + start ∧
      start + e.width ≤ byteLength (readableText source) ∧
      String.Pos.Raw.extract source ⟨start⟩ ⟨start + e.width⟩ =
        ((TokenStream.ofSource source base).answer n).text ∧
      ∀ found, e.reason.found? = some found →
        String.Pos.Raw.extract source ⟨start⟩ ⟨start + e.width⟩ = found := by
  have hbase : base ≠ .unknown := by
    rintro rfl
    exact absurd hsize (Nat.not_lt.2 (Nat.le_add_right _ _))
  have hparse : parse source base version mode = .error e :=
    h.elim id fun hread => (parse_eq_error_iff source base version mode e).2
      (signature_eq_error_iff.1 hread)
  obtain ⟨reason, l, hl, rfl, hfits⟩ := (blame_of_parse hparse).fits
  obtain ⟨n, rfl, hbefore⟩ := TokenStream.exists_answer_of_mem hl
  obtain ⟨before, after, hsource, hloc, hle⟩ := exists_split_of_mem_lexemes hl
  have hslice := extract_of_split hsource
  refine ⟨n, byteLength before, hbefore, rfl, rfl,
    raw_of_split hbase (Nat.le_of_lt hsize) hsource hloc, hle, hslice, fun found hfound => ?_⟩
  rw [hfits.found_eq hfound]
  exact hslice

/-- An error behind a declaration, at a character of three bytes. -/
theorem parse_error_anchored_warningSign :
    (⟨10⟩ : Location).raw + "SRV(t0) ⚠".utf8ByteSize < 4294967295 ∧
      parse "SRV(t0) ⚠" ⟨10⟩ .v1_0 .globalMode = .error ⟨.expectedComma "⚠", ⟨18⟩, 3⟩ ∧
      ∃ n start, (⟨18⟩ : Location) =
          ((TokenStream.ofSource "SRV(t0) ⚠" ⟨10⟩).answer n).location ∧
        3 = ((TokenStream.ofSource "SRV(t0) ⚠" ⟨10⟩).answer n).width ∧ 18 = 10 + start ∧
        String.Pos.Raw.extract "SRV(t0) ⚠" ⟨start⟩ ⟨start + 3⟩ = "⚠" := by
  have hsize : (⟨10⟩ : Location).raw + "SRV(t0) ⚠".utf8ByteSize < 4294967295 := by decide
  have hparse : parse "SRV(t0) ⚠" ⟨10⟩ .v1_0 .globalMode =
      .error ⟨.expectedComma "⚠", ⟨18⟩, 3⟩ := by
    rw [parse_eq_error_iff]
    decide +kernel
  obtain ⟨n, start, -, hlocation, hwidth, hstart, -, -, hfound⟩ :=
    parse_error_anchored "SRV(t0) ⚠" ⟨10⟩ .v1_0 .globalMode hsize _ (.inl hparse)
  exact ⟨hsize, hparse, n, start, hlocation, hwidth, hstart, hfound "⚠" rfl⟩

end RootSignature
