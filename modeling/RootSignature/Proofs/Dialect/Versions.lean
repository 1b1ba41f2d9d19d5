import RootSignature.Proofs.Dialect.Departure
import RootSignature.Proofs.Dialect.Unflagged
import RootSignature.Proofs.Token.Tiling

/-!
# Version 1.0 is version 1.1 without flags

The dialect of version 1.0 narrows that of version 1.1 (`dialectsNarrow_version`): it departs at the
name of a `flags` parameter, and nowhere else. So the two versions give the same answer to a source,
up to conversion, or version 1.0 refuses the flags (`parse_v1_0_narrows`).
-/

namespace RootSignature

open Reader

/-! ## The departure of version 1.0 -/

/-- The reason refuses the flags of a parameter, and blames their name. -/
def RefusesFlags (reason : Reason) (l : Lexeme) : Prop :=
  (∃ family, reason = .flagsNotSupported family .v1_0) ∧ l.token = .keyword (.parameter .flags)

/-- Flags are read alike in dialects that do not differ in what a global signature may not have. -/
theorem runFlagList_congr {F : Type} [WrittenFlag F] {dialect dialect' : Dialect}
    (h : dialect.isGlobal = dialect'.isGlobal) (canFollow : Token → Bool) (stop : Location)
    (ls : List Lexeme) :
    runFlagList (F := F) dialect canFollow stop ls =
      runFlagList (F := F) dialect' canFollow stop ls := by
  have hword (l : Lexeme) :
      (WrittenFlag.ofLexeme dialect l : Except Reason F) = WrittenFlag.ofLexeme dialect' l := by
    unfold WrittenFlag.ofLexeme
    rw [h]
  fun_induction runFlagList (F := F) dialect canFollow stop ls with
  | case1 => rfl
  | case2 l ls reason hl =>
      rw [runFlagList, ← hword, hl]
  | case3 l ls f hl hfollow =>
      rw [runFlagList, ← hword, hl]
      dsimp only
      rw [if_pos hfollow]
  | case4 l f hl hfollow =>
      rw [runFlagList, ← hword, hl]
      dsimp only
      rw [if_neg hfollow]
  | case5 l f hl bar ls hbar answer rest hrun hfollow ih =>
      rw [runFlagList, ← hword, hl]
      dsimp only
      rw [if_neg hfollow, if_pos hbar, ← ih, hrun]
  | case6 l f hl bar ls hbar hfollow =>
      rw [runFlagList, ← hword, hl]
      dsimp only
      rw [if_neg hfollow, if_neg hbar]

/-- The flags of a signature are read alike in all dialects that agree on global mode. -/
theorem rootFlags_congr {dialect dialect' : Dialect} (h : dialect.isGlobal = dialect'.isGlobal) :
    rootFlags dialect = rootFlags dialect' := by
  have hflags : (flags dialect (· = .rightParen) : Reader (FlagSet RootFlag)) =
      flags dialect' (· = .rightParen) := by
    ext1 stop ls
    rw [run_flags, run_flags, runFlagList_congr h]
  unfold rootFlags
  rw [hflags]

/-- Where version 1.0 refuses flags, version 1.1 takes at least their name. -/
theorem dialectsNarrow_version (mode : BindingMode) :
    DialectsNarrow RefusesFlags (mode.dialect .v1_0) (mode.dialect .v1_1) := by
  refine ⟨fun F _ => ?_, ?_⟩
  · intro stop l ls hl
    refine .inr ⟨ls, ⟨.flagsNotSupported (WrittenFlag.family F) .v1_0, l, ⟨⟨_, rfl⟩, hl⟩, rfl,
      List.suffix_rfl⟩, ?_, ?_⟩
    · exact Reader.rest_suffix (expect .equals >>= fun _ => flags (mode.dialect .v1_1)
        canFollowParameter : Reader (FlagSet F)) stop ls
    · intro e he
      have hblames := (blames_expect .equals).bind fun _ =>
        (blames_flags canFollowParameter : (flags (mode.dialect .v1_1) canFollowParameter :
          Reader (FlagSet F)).Blames (mode.dialect .v1_1))
      exact (hblames stop ls e _ (Prod.ext he rfl)).within
  · have hglobal : (mode.dialect .v1_0).isGlobal = (mode.dialect .v1_1).isGlobal := rfl
    rw [rootFlags_congr hglobal]
    exact .refl _ _

/-! ## The answers of both versions -/

/-- Version 1.1 does not refuse flags. -/
theorem not_flagsNotSupported_v1_1 {source : String} {base : Location} {mode : BindingMode}
    {e : ParseError} (h : parse source base .v1_1 mode = .error e) (family : FlagFamily)
    (version : Version) : e.reason ≠ .flagsNotSupported family version := by
  intro hreason
  obtain ⟨reason, l, -, rfl, hfits⟩ := (blame_of_parse h).fits
  obtain rfl : reason = .flagsNotSupported family version := hreason
  cases hfits.1

/-- No error of parsing says that a signature could not be converted. -/
theorem not_conversionFailed {source : String} {base : Location} {version : Version}
    {mode : BindingMode} {e : ParseError} (h : parse source base version mode = .error e)
    (c : ConversionError) : e.reason ≠ .conversionFailed c := by
  intro hreason
  obtain ⟨reason, l, -, rfl, hfits⟩ := (blame_of_parse h).fits
  obtain rfl : reason = .conversionFailed c := hreason
  exact hfits

/-- Both versions read a source alike, or version 1.0 refuses flags. -/
theorem readSource_narrows (source : String) (base : Location) (mode : BindingMode) :
    ReadingNarrows RefusesFlags (TokenStream.ofSource source base).stop
      (TokenStream.ofSource source base).lexemes (readSource source base .v1_0 mode)
      (readSource source base .v1_1 mode) :=
  narrows_readDeclarations (dialectsNarrow_version mode) false _

/-- What version 1.0 answers is what version 1.1 answers, converted. -/
theorem parse_v1_1_of_v1_0_eq_ok {source : String} {base : Location} {mode : BindingMode}
    {d : VersionedSignature} (h : parse source base .v1_0 mode = .ok d) :
    ∃ d', parse source base .v1_1 mode = .ok d' ∧ d'.convert .v1_0 = .ok d := by
  rw [parse_v1_0_eq] at h
  cases hread : (readSource source base .v1_0 mode).signature with
  | error e =>
      rw [hread] at h
      cases h
  | ok s =>
      rw [hread] at h
      cases h
      have hnone := firstFlagged?_eq_none_of_readSource hread
      refine ⟨.v1_1 (s.inMode mode), ?_, Signature.convert_eq_ok hnone⟩
      rcases readSource_narrows source base mode with heq | ⟨reason, l, tail, -, -, hfailure, -⟩
      · rw [parse_v1_1_eq, ← heq, hread]
        rfl
      · rw [(signature_eq_ok_iff.1 hread).1] at hfailure
        cases hfailure

/-- An error of version 1.0 is one of version 1.1, or it refuses flags. Then an error of version 1.1
stands behind the name of the flags. -/
theorem parse_v1_1_of_v1_0_eq_error {source : String} {base : Location} {mode : BindingMode}
    {e : ParseError} (h : parse source base .v1_0 mode = .error e) :
    parse source base .v1_1 mode = .error e ∨
      ∃ reason l tail, RefusesFlags reason l ∧
        l :: tail <:+ (TokenStream.ofSource source base).lexemes ∧ e = .atLexeme reason l ∧
        ∀ e', parse source base .v1_1 mode = .error e' →
          e'.Within (TokenStream.ofSource source base).stop tail := by
  have hfailure := (parse_eq_error_iff source base .v1_0 mode e).1 h
  rcases readSource_narrows source base mode with
    heq | ⟨reason, l, tail, hdeparts, hl, hrefused, hwithin⟩
  · left
    rw [heq] at hfailure
    exact (parse_eq_error_iff source base .v1_1 mode e).2 hfailure
  · rw [hrefused] at hfailure
    cases hfailure
    refine .inr ⟨reason, l, tail, hdeparts, hl, rfl, fun e' he' => ?_⟩
    exact hwithin e' ((parse_eq_error_iff source base .v1_1 mode e').1 he')

/-- Version 1.0 is version 1.1 restricted to sources without flags of parameters. What it answers is
the converted answer of version 1.1; an error of it is the same in version 1.1, unless it refuses
flags. Then it blames the name of the flags, and an error of version 1.1 is about a lexeme behind
this name, or about the end. Such an error has a greater location, if there is a number for every
location of the source. The conversion never fails. -/
theorem parse_v1_0_narrows (source : String) (mode : BindingMode) :
    (∀ d, parse source .first .v1_0 mode = .ok d →
      ∃ d', parse source .first .v1_1 mode = .ok d' ∧ d'.convert .v1_0 = .ok d) ∧
    (∀ e, parse source .first .v1_0 mode = .error e →
      (∀ family version, e.reason ≠ .flagsNotSupported family version) →
      parse source .first .v1_1 mode = .error e) ∧
    (∀ e family version, parse source .first .v1_0 mode = .error e →
      e.reason = .flagsNotSupported family version →
      ∃ l tail, l :: tail <:+ (TokenStream.ofSource source .first).lexemes ∧
        l.token = .keyword (.parameter .flags) ∧ e.location = l.location ∧ e.width = l.width ∧
        ∀ e', parse source .first .v1_1 mode = .error e' →
          e'.Within (TokenStream.ofSource source .first).stop tail ∧
          (Location.first.HasRoomFor (readableText source) →
            e.location.raw < e'.location.raw ∧
              e.location.raw + e.width ≤ e'.location.raw)) ∧
    (∀ version e c, parse source .first version mode = .error e →
      e.reason ≠ .conversionFailed c) := by
  refine ⟨fun d h => parse_v1_1_of_v1_0_eq_ok h, ?_, ?_, fun _ _ c h => not_conversionFailed h c⟩
  · intro e h hreason
    rcases parse_v1_1_of_v1_0_eq_error h with
      hsame | ⟨reason, l, tail, ⟨⟨family, hrefuses⟩, -⟩, -, rfl, -⟩
    · exact hsame
    · exact absurd hrefuses (hreason family .v1_0)
  · intro e family version h hreason
    rcases parse_v1_1_of_v1_0_eq_error h with
      hsame | ⟨reason, l, tail, ⟨-, hflags⟩, hl, rfl, hwithin⟩
    · exact absurd hreason (not_flagsNotSupported_v1_1 hsame family version)
    · refine ⟨l, tail, hl, hflags, rfl, rfl, fun e' h' => ⟨hwithin e' h', fun hroom => ?_⟩⟩
      obtain ⟨reason', m, hm, rfl⟩ := hwithin e' h'
      exact TokenStream.raw_location_behind (by decide) hroom hl hm

end RootSignature
