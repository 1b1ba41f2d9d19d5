import RootSignature.Proofs.Dialect.Departure
import RootSignature.Proofs.Dialect.Unflagged
import RootSignature.Proofs.Token.Tiling

/-!
# The modes differ in one flag

A local signature is read like one of which nothing was said, and then gets the flag that marks it
as local. A global one may not have this flag: its dialect narrows the other (`dialectsNarrow_mode`)
and departs at the word for the flag, and nowhere else. What it answers, it answers only to
signatures without the flag (`Signature.written_isGlobal_iff`). `parseFor?_by_mode` puts this
together, and adds that the modes depend on two bits of the flags that accompany a request.
-/

namespace RootSignature

open Grammar Reader

/-! ## The departure of global signatures -/

variable {stop : Location} {dialect dialect' : Dialect}

/-- The reason refuses a signature that calls itself local, and blames the word that does so. -/
def RefusesLocal (reason : Reason) (l : Lexeme) : Prop :=
  reason = .localFlagInGlobalSignature ∧ l.token = .keyword (.rootFlag .localRootSignature)

/-- Where nothing was said, a flag may be the one for local signatures. -/
theorem flagsNarrow_isGlobal (F : Type) [WrittenFlag F] (hglobal : dialect.isGlobal = true)
    (hfree : dialect'.isGlobal = false) : FlagsNarrow F RefusesLocal dialect dialect' := by
  intro l
  unfold WrittenFlag.ofLexeme
  dsimp only
  split
  · exact .inl rfl
  · next f hf =>
      by_cases hlocal : l.token = .keyword (.rootFlag .localRootSignature)
      · refine .inr ⟨.localFlagInGlobalSignature, f, ⟨rfl, hlocal⟩, ?_, ?_⟩
        · rw [if_pos ⟨hlocal, hglobal⟩]
        · rw [if_neg (by simp [hfree])]
      · left
        rw [if_neg fun h => hlocal h.1, if_neg fun h => hlocal h.1]

/-- Global signatures may not call themselves local, and this is all that they may not do. -/
theorem dialectsNarrow_mode (version : Version) :
    DialectsNarrow RefusesLocal (BindingMode.globalMode.dialect version)
      (BindingMode.unspecified.dialect version) := by
  have hflags (F : Type) [WrittenFlag F] (canFollow : Token → Bool) (stop : Location)
      (ls : List Lexeme) : Narrows RefusesLocal stop ls
        ((flags (BindingMode.globalMode.dialect version) canFollow : Reader (FlagSet F)).run stop
          ls)
        ((flags (BindingMode.unspecified.dialect version) canFollow : Reader (FlagSet F)).run stop
          ls) :=
    narrows_flags (flagsNarrow_isGlobal F (by rfl) (by rfl)) canFollow ls
  refine ⟨fun F _ => ?_, fun stop l ls _ => ?_⟩
  · unfold parameterFlags
    cases version with
    | v1_0 => exact .refl _ _
    | v1_1 =>
        intro stop l ls _
        refine Narrows.mono ?_ (List.suffix_cons l ls)
        exact narrows_bind_left (expect .equals) fun _ rest _ =>
          hflags F canFollowParameter stop rest
  · refine Narrows.mono ?_ (List.suffix_cons l ls)
    refine narrows_bind_left (expect .leftParen) fun _ rest _ => ?_
    have hclose (fs : FlagSet RootFlag) : (expect .rightParen >>= fun _ => pure fs).Blames
        (BindingMode.unspecified.dialect version) :=
      (blames_expect .rightParen).bind fun _ => blames_pure fs
    exact narrows_bind_right (hflags RootFlag (· = .rightParen) stop rest) hclose

/-! ## The flag for local signatures -/

/-- No two flags of a whole signature share a bit. -/
theorem RootFlag.bit_and_bit {f g : RootFlag} (h : f ≠ g) : Flag.bit f &&& Flag.bit g = 0 := by
  cases f <;> cases g <;> first | exact absurd rfl h | decide

/-- Adding a flag adds this flag only, since no two flags share a bit. -/
theorem RootFlag.mem_singleton_union {f g : RootFlag} {s : FlagSet RootFlag} :
    f ∈ ({g} ∪ s : FlagSet RootFlag) ↔ f = g ∨ f ∈ s := by
  have hbits : ({g} ∪ s : FlagSet RootFlag).bits &&& Flag.bit f =
      (Flag.bit g &&& Flag.bit f) ||| (s.bits &&& Flag.bit f) :=
    UInt32.toBitVec_inj.1 BitVec.and_or_distrib_right
  rw [FlagSet.mem_iff, FlagSet.mem_iff, hbits]
  by_cases h : f = g
  · have habsorb (a b : UInt32) : (a &&& a) ||| (b &&& a) = a := by
      rw [UInt32.and_self, ← UInt32.toBitVec_inj]
      ext i hi
      cases ha : a.toBitVec[i] <;> simp [ha]
    subst h
    exact ⟨fun _ => .inl rfl, fun _ => habsorb _ _⟩
  · rw [RootFlag.bit_and_bit (Ne.symm h), UInt32.zero_or]
    simp [h]

/-- The set of a list of flags has the flags of the list. -/
theorem RootFlag.mem_ofList {f : RootFlag} {fs : List RootFlag} :
    f ∈ FlagSet.ofList fs ↔ f ∈ fs := by
  induction fs with
  | nil => cases f <;> decide
  | cons g fs ih => rw [FlagSet.ofList_cons, RootFlag.mem_singleton_union, ih, List.mem_cons]

/-! ## What global signatures are -/

namespace Grammar

/-- A condition on single flags is one on all flags of a list. -/
theorem flagWords_and_iff {F : Type} {word : Token → F → Prop} {p : F → Prop} {ts : List Token}
    {fs : List F} :
    FlagWords (fun t f => word t f ∧ p f) ts fs ↔ FlagWords word ts fs ∧ ∀ f ∈ fs, p f := by
  refine ⟨fun h => ?_, fun hboth => ?_⟩
  · induction h with
    | single hf => exact ⟨.single hf.1, by simpa using hf.2⟩
    | cons hf _ ih => exact ⟨.cons hf.1 ih.1, List.forall_mem_cons.2 ⟨hf.2, ih.2⟩⟩
  · obtain ⟨h, hp⟩ := hboth
    induction h with
    | single hf => exact .single ⟨hf, hp _ (List.mem_singleton.2 rfl)⟩
    | cons hf _ ih =>
        obtain ⟨hpf, hpfs⟩ := List.forall_mem_cons.1 hp
        exact .cons ⟨hf, hpf⟩ (ih hpfs)

/-- A condition on single items is one on all items of a list. -/
theorem commaList_and_iff {α : Type} {item : Rule α} {p : α → Prop} {ts : List Token}
    {as : List α} :
    CommaList (fun ts a => item ts a ∧ p a) ts as ↔ CommaList item ts as ∧ ∀ a ∈ as, p a := by
  refine ⟨fun h => ?_, fun hboth => ?_⟩
  · induction h with
    | single ha => exact ⟨.single ha.1, by simpa using ha.2⟩
    | cons ha _ ih => exact ⟨.cons ha.1 ih.1, List.forall_mem_cons.2 ⟨ha.2, ih.2⟩⟩
  · obtain ⟨h, hp⟩ := hboth
    induction h with
    | single ha => exact .single ⟨ha, hp _ (List.mem_singleton.2 rfl)⟩
    | cons ha _ ih =>
        obtain ⟨hpa, hpas⟩ := List.forall_mem_cons.1 hp
        exact .cons ⟨ha, hpa⟩ (ih hpas)

/-- The flags of a global signature are those of any other, without the one for local signatures. -/
theorem flags_isGlobal_iff (hglobal : dialect.isGlobal = true) (hfree : dialect'.isGlobal = false)
    {ts : List Token} {fs : FlagSet RootFlag} :
    Flags (RootFlagWord dialect) ts fs ↔
      Flags (RootFlagWord dialect') ts fs ∧ .localRootSignature ∉ fs := by
  have hword : RootFlagWord dialect = fun t f =>
      RootFlagWord dialect' t f ∧ f ≠ .localRootSignature := by
    funext t f
    simp [RootFlagWord, hglobal, hfree]
  have hlist (fs : List RootFlag) : (∀ f ∈ fs, f ≠ .localRootSignature) ↔
      .localRootSignature ∉ FlagSet.ofList fs := by
    rw [RootFlag.mem_ofList]
    exact ⟨fun h hmem => h _ hmem rfl, fun h f hmem hf => h (hf ▸ hmem)⟩
  rw [hword]
  refine ⟨fun h => ?_, fun h => ?_⟩
  · cases h with
    | zero => exact ⟨.zero, by decide⟩
    | words h =>
        obtain ⟨hwords, hfs⟩ := flagWords_and_iff.1 h
        exact ⟨.words hwords, (hlist _).1 hfs⟩
  · obtain ⟨h, hlocal⟩ := h
    cases h with
    | zero => exact .zero
    | words h => exact .words (flagWords_and_iff.2 ⟨h, (hlist _).2 hlocal⟩)

end Grammar

/-! Apart from the flags of the whole, only the version counts for what is written. -/

section
variable (h : dialect.version = dialect'.version)
include h

/-- How an item of a descriptor is written depends on the version only. -/
theorem DescriptorItem.written_congr (type : DescriptorType) :
    Written dialect type = Written dialect' type := by
  funext ts item
  cases item <;> simp only [Written, h]

theorem RangeItem.written_congr (type : RangeType) :
    Written dialect type = Written dialect' type := by
  funext ts item
  cases item <;> simp only [Written, h]

theorem TableItem.written_congr : Written dialect = Written dialect' := by
  funext ts item
  cases item <;> simp only [Written, DescriptorRange.Written, RangeItem.written_congr h]

/-- A parameter that is written in one mode is written so in every mode. -/
theorem RootParameter.written_of_version {ts : List Token} {p : RootParameterV1_1}
    (hp : Written dialect ts p) : Written dialect' ts p := by
  cases hp with
  | constants hp => exact .constants hp
  | descriptor type hp => exact .descriptor type (DescriptorItem.written_congr h type ▸ hp)
  | table hp => exact .table (TableItem.written_congr h ▸ hp)

end

/-- The declaration does not say that the signature is local. -/
def Declaration.NotLocal : Declaration → Prop
  | rootFlags fs => .localRootSignature ∉ fs
  | _ => True

/-- The declarations of a global signature are those of any other that do not say that it is
local. -/
theorem Declaration.written_isGlobal_iff (hversion : dialect.version = dialect'.version)
    (hglobal : dialect.isGlobal = true) (hfree : dialect'.isGlobal = false) {ts : List Token}
    {d : Declaration} : Written dialect ts d ↔ Written dialect' ts d ∧ d.NotLocal := by
  cases d with
  | rootFlags fs =>
      simp only [Written, NotLocal, flags_isGlobal_iff hglobal hfree]
      refine ⟨fun h => ?_, fun h => ?_⟩
      · obtain ⟨body, ⟨hfs, hlocal⟩, hts⟩ := h
        exact ⟨⟨body, hfs, hts⟩, hlocal⟩
      · obtain ⟨⟨body, hfs, hts⟩, hlocal⟩ := h
        exact ⟨body, ⟨hfs, hlocal⟩, hts⟩
  | parameter p =>
      refine ⟨fun h => ⟨RootParameter.written_of_version hversion h, trivial⟩, fun h => ?_⟩
      exact RootParameter.written_of_version hversion.symm h.1
  | staticSampler s => exact ⟨fun h => ⟨h, trivial⟩, And.left⟩

/-- Global signatures are those that do not call themselves local. -/
theorem Signature.written_isGlobal_iff (hversion : dialect.version = dialect'.version)
    (hglobal : dialect.isGlobal = true) (hfree : dialect'.isGlobal = false) {ts : List Token}
    {s : SignatureV1_1} :
    Signature.Written dialect ts s ↔
      Signature.Written dialect' ts s ∧ .localRootSignature ∉ s.flags := by
  have hlist {ts : List Token} {ds : List Declaration} :
      CommaList (Declaration.Written dialect) ts ds ↔
        CommaList (Declaration.Written dialect') ts ds ∧ ∀ d ∈ ds, d.NotLocal := by
    have hrule : Declaration.Written dialect =
        fun ts d => Declaration.Written dialect' ts d ∧ d.NotLocal := by
      funext ts d
      exact propext (Declaration.written_isGlobal_iff hversion hglobal hfree)
    rw [hrule, commaList_and_iff]
  have hdeclarations {ts : List Token} {ds : List Declaration} :
      Declarations dialect ts ds ↔ Declarations dialect' ts ds ∧ ∀ d ∈ ds, d.NotLocal := by
    refine ⟨fun h => ?_, fun ⟨h, hlocal⟩ => ?_⟩
    · cases h with
      | empty => exact ⟨.empty, by simp⟩
      | list h => exact ⟨.list (hlist.1 h).1, (hlist.1 h).2⟩
      | trailingComma h => exact ⟨.trailingComma (hlist.1 h).1, (hlist.1 h).2⟩
    · cases h with
      | empty => exact .empty
      | list h => exact .list (hlist.2 ⟨h, hlocal⟩)
      | trailingComma h => exact .trailingComma (hlist.2 ⟨h, hlocal⟩)
  refine ⟨fun h => ?_, fun h => ?_⟩
  · obtain ⟨ds, hds, hroom, hmade⟩ := h
    obtain ⟨hds, hlocal⟩ := hdeclarations.1 hds
    refine ⟨⟨ds, hds, hroom, hmade⟩, ?_⟩
    rcases hmade.flags with hmem | ⟨-, hempty⟩
    · exact hlocal _ hmem
    · rw [hempty]
      decide
  · obtain ⟨⟨ds, hds, hroom, hmade⟩, hlocal⟩ := h
    refine ⟨ds, hdeclarations.2 ⟨hds, fun d hd => ?_⟩, hroom, hmade⟩
    cases d with
    | rootFlags fs =>
        rcases hmade.flags with hmem | ⟨hnone, -⟩
        · rw [eq_of_rootFlags_mem hroom hmem hd] at hlocal
          exact hlocal
        · exact absurd hd (hnone fs)
    | _ => trivial

/-! ## The answers of the modes -/

namespace VersionedSignature

/-- The flags of the whole signature. -/
def flags : VersionedSignature → FlagSet RootFlag
  | v1_0 s => s.flags
  | v1_1 s => s.flags

/-- The signature with one more flag of the whole. -/
def insertFlag (f : RootFlag) : VersionedSignature → VersionedSignature
  | v1_0 s => v1_0 { s with flags := s.flags.insert f }
  | v1_1 s => v1_1 { s with flags := s.flags.insert f }

end VersionedSignature

/-- The answer to a source for the flags of a request. There is none if the flags are in
conflict. -/
def parseFor? (flags : FlagSet CompilationFlag) (source : String) (base : Location)
    (version : Version) : Option (Except ParseError VersionedSignature) :=
  flags.bindingMode?.map (parse source base version)

/-- The mode depends on the two lowest bits. -/
theorem FlagSet.bindingMode?_congr {s t : FlagSet CompilationFlag}
    (h : s.bits &&& 3 = t.bits &&& 3) : s.bindingMode? = t.bindingMode? := by
  have hmem (m : UInt32) (hm : 3 &&& m = m) : (s.bits &&& m = m) = (t.bits &&& m = m) := by
    have hand (b : UInt32) : b &&& m = (b &&& 3) &&& m := by rw [UInt32.and_assoc, hm]
    rw [hand s.bits, hand t.bits, h]
  have hglobal : (.globalRootSignature ∈ s) = (.globalRootSignature ∈ t) := hmem 1 rfl
  have hlocal : (.localRootSignature ∈ s) = (.localRootSignature ∈ t) := hmem 2 rfl
  unfold FlagSet.bindingMode?
  simp only [hglobal, hlocal]

/-- The flags of a signature are the same in both versions. -/
theorem Signature.flags_asVersion (s : SignatureV1_1) (version : Version) :
    (s.asVersion version).flags = s.flags := by
  cases version <;> rfl

/-- A local signature is read like one of which nothing was said, and marked as local. -/
theorem parse_localMode_eq (source : String) (base : Location) (version : Version) :
    parse source base version .localMode =
      (parse source base version .unspecified).map (·.insertFlag .localRootSignature) := by
  have hread : readSource source base version .localMode =
      readSource source base version .unspecified := rfl
  rw [parse_eq_map, parse_eq_map, hread]
  cases (readSource source base version .unspecified).signature with
  | error e => rfl
  | ok s => cases version <;> rfl

/-- A global signature is read just when the same signature is read without a mode and does not call
itself local. -/
theorem parse_globalMode_eq_ok_iff {source : String} {base : Location} {version : Version}
    {d : VersionedSignature} :
    parse source base version .globalMode = .ok d ↔
      parse source base version .unspecified = .ok d ∧ .localRootSignature ∉ d.flags := by
  have hread (s : SignatureV1_1) :
      (readSource source base version .globalMode).signature = .ok s ↔
        (readSource source base version .unspecified).signature = .ok s ∧
          .localRootSignature ∉ s.flags := by
    have hversion : (BindingMode.globalMode.dialect version).version =
      (BindingMode.unspecified.dialect version).version := rfl
    rw [readSource_signature_eq_ok_iff, readSource_signature_eq_ok_iff]
    exact Signature.written_isGlobal_iff hversion rfl rfl
  simp only [parse_eq_ok_iff, hread]
  refine ⟨fun h => ?_, fun h => ?_⟩
  · obtain ⟨s, ⟨hs, hlocal⟩, rfl⟩ := h
    refine ⟨⟨s, hs, rfl⟩, ?_⟩
    rwa [Signature.flags_asVersion]
  · obtain ⟨⟨s, hs, rfl⟩, hlocal⟩ := h
    rw [Signature.flags_asVersion] at hlocal
    exact ⟨s, ⟨hs, hlocal⟩, rfl⟩

/-- An error of a global signature is the error that is found without a mode, or it refuses a word
that calls the signature local. Then an error that is found without a mode stands behind the
word. -/
theorem parse_globalMode_eq_error {source : String} {base : Location} {version : Version}
    {e : ParseError} (h : parse source base version .globalMode = .error e) :
    parse source base version .unspecified = .error e ∨
      ∃ l tail, l :: tail <:+ (TokenStream.ofSource source base).lexemes ∧
        l.token = .keyword (.rootFlag .localRootSignature) ∧
        e = .atLexeme .localFlagInGlobalSignature l ∧
        ∀ e', parse source base version .unspecified = .error e' →
          e'.Within (TokenStream.ofSource source base).stop tail := by
  have hfailure := (parse_eq_error_iff source base version .globalMode e).1 h
  have hnarrows : ReadingNarrows RefusesLocal (TokenStream.ofSource source base).stop
      (TokenStream.ofSource source base).lexemes (readSource source base version .globalMode)
      (readSource source base version .unspecified) :=
    narrows_readDeclarations (dialectsNarrow_mode version) false _
  rcases hnarrows with heq | ⟨reason, l, tail, ⟨rfl, htoken⟩, hl, hrefused, hwithin⟩
  · left
    rw [heq] at hfailure
    exact (parse_eq_error_iff source base version .unspecified e).2 hfailure
  · rw [hrefused] at hfailure
    cases hfailure
    refine .inr ⟨l, tail, hl, htoken, rfl, fun e' he' => ?_⟩
    exact hwithin e' ((parse_eq_error_iff source base version .unspecified e').1 he')

/-- The mode, which two bits decide, changes no answer but in one flag. A local signature is
answered with the flag that marks it, and has the same errors. A global one is answered alike if it
does not have the flag. Otherwise it is refused at the word for the flag, and an error that it has
without a mode is either its error too or is about a lexeme behind this word, or about the end. Such
an error has a greater location, if there is a number for every location of the source. -/
theorem parseFor?_by_mode (source : String) (version : Version) :
    (∀ (s t : FlagSet CompilationFlag) (base : Location), s.bits &&& 3 = t.bits &&& 3 →
      parseFor? s source base version = parseFor? t source base version) ∧
    ∃ r rl rg, parseFor? ∅ source .first version = some r ∧
      parseFor? {.localRootSignature} source .first version = some rl ∧
      parseFor? {.globalRootSignature} source .first version = some rg ∧
      (∀ d, r = .ok d → rl = .ok (d.insertFlag .localRootSignature)) ∧
      (∀ e, r = .error e → rl = .error e) ∧
      (∀ d, r = .ok d → .localRootSignature ∉ d.flags → rg = .ok d) ∧
      (∀ d, r = .ok d → .localRootSignature ∈ d.flags →
        ∃ l ∈ (TokenStream.ofSource source .first).lexemes,
          l.token = .keyword (.rootFlag .localRootSignature) ∧
          rg = .error (.atLexeme .localFlagInGlobalSignature l)) ∧
      (∀ e, r = .error e → rg = .error e ∨
        ∃ l tail, l :: tail <:+ (TokenStream.ofSource source .first).lexemes ∧
          l.token = .keyword (.rootFlag .localRootSignature) ∧
          rg = .error (.atLexeme .localFlagInGlobalSignature l) ∧
          e.Within (TokenStream.ofSource source .first).stop tail ∧
          (Location.first.HasRoomFor (readableText source) →
            l.location.raw < e.location.raw ∧ l.location.raw + l.width ≤ e.location.raw)) := by
  refine ⟨fun s t base h => ?_, parse source .first version .unspecified,
    parse source .first version .localMode, parse source .first version .globalMode, by rfl, by rfl,
    by rfl, fun d hr => ?_, fun e hr => ?_, fun d hr hlocal => ?_, fun d hr hlocal => ?_,
    fun e hr => ?_⟩
  · rw [parseFor?, parseFor?, FlagSet.bindingMode?_congr h]
  · rw [parse_localMode_eq, hr]
    rfl
  · rw [parse_localMode_eq, hr]
    rfl
  · exact parse_globalMode_eq_ok_iff.2 ⟨hr, hlocal⟩
  · cases hglobal : parse source .first version .globalMode with
    | ok d' =>
        obtain ⟨hr', hlocal'⟩ := parse_globalMode_eq_ok_iff.1 hglobal
        cases hr.symm.trans hr'
        exact absurd hlocal hlocal'
    | error e =>
        rcases parse_globalMode_eq_error hglobal with hsame | ⟨l, tail, hl, htoken, rfl, -⟩
        · cases hr.symm.trans hsame
        · exact ⟨l, hl.mem (List.mem_cons_self ..), htoken, rfl⟩
  · cases hglobal : parse source .first version .globalMode with
    | ok d => cases hr.symm.trans (parse_globalMode_eq_ok_iff.1 hglobal).1
    | error e' =>
        rcases parse_globalMode_eq_error hglobal with hsame | ⟨l, tail, hl, htoken, rfl, hwithin⟩
        · exact .inl (hsame.symm.trans hr)
        · refine .inr ⟨l, tail, hl, htoken, rfl, hwithin e hr, fun hroom => ?_⟩
          obtain ⟨reason, m, hm, rfl⟩ := hwithin e hr
          exact TokenStream.raw_location_behind (by decide) hroom hl hm

end RootSignature
