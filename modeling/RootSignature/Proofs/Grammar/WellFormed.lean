import RootSignature.Proofs.Binary.Rounding
import RootSignature.Proofs.Dialect.Modes
import RootSignature.Proofs.Token.Characters

/-!
# What is parsed is well formed

The scanner reads numbers as finite floats only (`isFinite_of_mem`), and a signature that is written
with such tokens carries finite floats and flags of its own families alone
(`Signature.wellFormed_of_written`): every flag is one of its family by the rule that it is written
by, and what is not written has a default that is well formed too. Modes and versions keep this up.
-/

namespace RootSignature

open Grammar

/-! ## Well-formed signatures -/

/-- The floats of a sampler are numbers, and none is infinite. -/
structure StaticSampler.IsFinite (s : StaticSampler) : Prop where
  mipLodBias : s.mipLodBias.isFinite = true
  minLod : s.minLod.isFinite = true
  maxLod : s.maxLod.isFinite = true

/-- What descriptors and ranges carry as flags satisfies a condition each. -/
def Binding.FlagsSatisfy {D R : Type} (descriptorFlags : D → Prop) (rangeFlags : R → Prop) :
    Binding D R → Prop
  | .constants _ => True
  | .descriptor d => descriptorFlags d.flags
  | .table ranges => ∀ r ∈ ranges, rangeFlags r.flags

/-- The flags of the whole are known, those of descriptors and ranges satisfy a condition each, and
the floats are finite. -/
structure Signature.WellFormed {D R : Type} (descriptorFlags : D → Prop) (rangeFlags : R → Prop)
    (s : Signature D R) : Prop where
  flags : s.flags.isKnown = true
  parameters : ∀ p ∈ s.parameters, p.binding.FlagsSatisfy descriptorFlags rangeFlags
  staticSamplers : ∀ x ∈ s.staticSamplers, x.IsFinite

/-- All flags that descriptors and ranges carry are known. -/
abbrev SignatureV1_1.WellFormed (s : SignatureV1_1) : Prop :=
  Signature.WellFormed (·.isKnown = true) (·.isKnown = true) s

/-- The description is well formed, in either version. -/
def VersionedSignature.WellFormed : VersionedSignature → Prop
  | v1_0 s => s.WellFormed (fun _ => True) (fun _ => True)
  | v1_1 s => SignatureV1_1.WellFormed s

/-! ## Tokens -/

/-- If the token is a float, it is finite. -/
def Token.IsFinite (t : Token) : Prop :=
  ∀ x, t = .float x → x.isFinite = true

/-- No numeral is an infinite float. -/
theorem Numeral.isFinite_token (n : Numeral) : n.token.IsFinite := by
  intro x hx
  unfold token integerToken at hx
  split at hx
  · cases hx
  · split at hx
    · cases hd : Binary32.ofDecimal? n.decimal with
      | none => simp [hd] at hx
      | some y =>
          obtain rfl : y = x := by simpa [hd] using hx
          exact Binary32.isFinite_of_ofDecimal? hd
    · repeat' split at hx
      all_goals cases hx

/-- No word is a float. -/
theorem Word.isFinite_token (word : List Char) : (Word.token word).IsFinite := by
  intro x hx
  unfold Word.token at hx
  cases hr : Register.ofWord? word <;> cases hk : Keyword.ofWord? word <;> simp [hr, hk] at hx

theorem FirstToken.isFinite_token_scan (c : Char) (cs : List Char) :
    (scan c cs).token.IsFinite := by
  unfold scan
  split
  · next token hmark =>
      rintro x rfl
      unfold Token.ofPunctuation? at hmark
      split at hmark <;> cases hmark
  · split
    · exact Numeral.isFinite_token _
    · split
      · exact Word.isFinite_token _
      · exact fun x hx => nomatch hx

/-- The scanner reads finite floats only. -/
theorem isFinite_of_mem {base : Location} {offset : Nat} {cs : List Char} {t : Token}
    (h : t ∈ (lexemesFrom base offset cs).map Lexeme.token) : t.IsFinite := by
  obtain ⟨l, hl, rfl⟩ := List.mem_map.1 h
  obtain ⟨c, cs', -, htoken, -⟩ := exists_scan_of_mem hl
  rw [htoken]
  exact FirstToken.isFinite_token_scan c cs'

/-! ## Values -/

section
variable {dialect : Dialect} {ts : List Token}

/-- What is given by an item or by none is given by an item, or is the default. -/
theorem Grammar.GivenOr.mem_or_eq {α β : Type} {items : List α} {item : β → α} {default b : β}
    (h : GivenOr items item default b) : item b ∈ items ∨ b = default :=
  h.imp_right And.right

/-- The float that finite tokens are written for is finite. -/
theorem Grammar.FloatNumber.isFinite {x : Binary32} (h : FloatNumber ts x)
    (hts : ∀ t ∈ ts, t.IsFinite) : x.isFinite = true := by
  cases h with
  | uint n => exact Binary32.isFinite_ofInt (Nat.le_of_lt n.toNat_lt)
  | int n =>
      have hlow : -2 ^ 31 ≤ n.toInt := n.le_toInt
      have hhigh : n.toInt < 2 ^ 31 := n.toInt_lt
      exact Binary32.isFinite_ofInt (by unfold UInt32.size; omega)
  | float x => exact hts _ (List.mem_singleton.2 rfl) x rfl

/-- Flags that are written are known. -/
theorem Grammar.Flags.isKnown {F : Type} [Flag F] (hall : ∀ f : F, f ∈ (Flag.all : List F))
    {word : Token → F → Prop} {fs : FlagSet F} (h : Flags word ts fs) : fs.isKnown = true := by
  cases h with
  | zero => exact FlagSet.isKnown_empty
  | words h => exact FlagSet.isKnown_ofList fun f _ => hall f

/-! ## Parameters and samplers -/

/-- The flags of a range that is written are known. -/
theorem DescriptorRange.isKnown_of_written {r : DescriptorRange (FlagSet RangeFlag)}
    (h : r.Written dialect ts) : r.flags.isKnown = true := by
  obtain ⟨body, items, -, hlist, -, hmakes⟩ := h
  have hflags : GivenOr items RangeItem.flags ∅ r.flags := by
    generalize r.type = type at hmakes
    cases hmakes with
    | intro _ _ _ _ hflags => exact hflags
  rcases hflags.mem_or_eq with hmem | hempty
  · obtain ⟨ts', -, -, vs, -, hfs⟩ := hlist.exists_of_mem hmem
    exact hfs.isKnown RangeFlag.mem_all
  · rw [hempty]
    exact FlagSet.isKnown_empty

/-- Descriptors and ranges that are written have known flags. -/
theorem RootParameter.flagsSatisfy_of_written {p : RootParameterV1_1} (h : Written dialect ts p) :
    p.binding.FlagsSatisfy (·.isKnown = true) (·.isKnown = true) := by
  cases h with
  | constants h =>
      obtain ⟨body, items, -, -, -, hmakes⟩ := h
      cases hmakes
      trivial
  | descriptor type h =>
      obtain ⟨body, items, -, hlist, -, hmakes⟩ := h
      cases hmakes with
      | intro _ _ hflags _ =>
          rcases hflags.mem_or_eq with hmem | rfl
          · obtain ⟨ts', -, -, vs, -, hfs⟩ := hlist.exists_of_mem hmem
            exact hfs.isKnown DescriptorFlag.mem_all
          · exact FlagSet.isKnown_empty
  | table h =>
      obtain ⟨body, items, -, hlist, -, hmakes⟩ := h
      cases hmakes with
      | intro _ =>
          intro r hr
          obtain ⟨item, hitem, hrange⟩ := List.mem_filterMap.1 hr
          cases item with
          | visibility v => cases hrange
          | range r' =>
              cases hrange
              obtain ⟨ts', -, hr'⟩ := hlist.exists_of_mem hitem
              exact DescriptorRange.isKnown_of_written hr'

/-- Samplers that are written with finite floats have finite floats. -/
theorem StaticSampler.isFinite_of_written {s : StaticSampler} (h : s.Written ts)
    (hts : ∀ t ∈ ts, t.IsFinite) : s.IsFinite := by
  obtain ⟨body, items, rfl, hlist, -, hmakes⟩ := h
  have hbody : body ⊆ .keyword (.opening .staticSampler) :: .leftParen ::
      (body ++ [.rightParen]) := by
    intro t ht
    simp [ht]
  -- The parameters that take a float are written alike.
  have hnamed {p : Parameter} {item : Binary32 → SamplerItem} {default x : Binary32}
      (hitem : ∀ ts x, SamplerItem.Written ts (item x) = Named p FloatNumber ts x)
      (hgiven : GivenOr items item default x) (hdefault : default.isFinite = true) :
      x.isFinite = true := by
    rcases hgiven.mem_or_eq with hmem | rfl
    · obtain ⟨ts', hsubset, hwritten⟩ := hlist.exists_of_mem hmem
      rw [hitem] at hwritten
      obtain ⟨vs, rfl, hx⟩ := hwritten
      refine hx.isFinite fun t ht => hts t (hbody (hsubset ?_))
      exact List.mem_cons_of_mem _ (List.mem_cons_of_mem _ ht)
    · exact hdefault
  exact {
    mipLodBias := hnamed (fun _ _ => rfl) hmakes.mipLodBias (by decide)
    minLod := hnamed (fun _ _ => rfl) hmakes.minLod (by decide)
    maxLod := hnamed (fun _ _ => rfl) hmakes.maxLod (by decide) }

/-- A signature that is written with finite floats is well formed. -/
theorem Signature.wellFormed_of_written {s : SignatureV1_1} (h : Signature.Written dialect ts s)
    (hts : ∀ t ∈ ts, t.IsFinite) : SignatureV1_1.WellFormed s := by
  obtain ⟨ds, hds, -, hmade⟩ := h
  refine ⟨?_, fun p hp => ?_, fun x hx => ?_⟩
  · rcases hmade.flags.mem_or_eq with hmem | hempty
    · obtain ⟨ts', -, body, hfs, -⟩ := hds.exists_of_mem hmem
      exact hfs.isKnown RootFlag.mem_all
    · rw [hempty]
      exact FlagSet.isKnown_empty
  · rw [hmade.parameters] at hp
    obtain ⟨d, hd, hdp⟩ := List.mem_filterMap.1 hp
    cases d with
    | rootFlags fs => cases hdp
    | staticSampler x => cases hdp
    | parameter p' =>
        cases hdp
        obtain ⟨ts', -, hwritten⟩ := hds.exists_of_mem hd
        exact RootParameter.flagsSatisfy_of_written hwritten
  · rw [hmade.staticSamplers] at hx
    obtain ⟨d, hd, hdx⟩ := List.mem_filterMap.1 hx
    cases d with
    | rootFlags fs => cases hdx
    | parameter p => cases hdx
    | staticSampler x' =>
        cases hdx
        obtain ⟨ts', hsubset, hwritten⟩ := hds.exists_of_mem hd
        exact StaticSampler.isFinite_of_written hwritten fun t ht => hts t (hsubset ht)

end

/-! ## Answers -/

/-- The mode of a signature keeps it well-formed. -/
theorem Signature.WellFormed.inMode {s : SignatureV1_1} (h : SignatureV1_1.WellFormed s)
    (mode : BindingMode) : SignatureV1_1.WellFormed (s.inMode mode) := by
  cases mode with
  | localMode =>
      have hflags : (s.flags.insert .localRootSignature).isKnown = true :=
        FlagSet.isKnown_union h.flags (FlagSet.isKnown_singleton (RootFlag.mem_all _))
      exact ⟨hflags, h.parameters, h.staticSamplers⟩
  | globalMode | unspecified => exact h

/-- A well-formed signature is described by a well-formed one in either version. -/
theorem Signature.WellFormed.asVersion {s : SignatureV1_1} (h : SignatureV1_1.WellFormed s)
    (version : Version) : (s.asVersion version).WellFormed := by
  cases version with
  | v1_1 => exact h
  | v1_0 =>
      refine ⟨h.flags, fun p _ => ?_, h.staticSamplers⟩
      obtain ⟨binding, visibility⟩ := p
      cases binding with
      | constants c | descriptor d => trivial
      | table ranges => exact fun _ _ => trivial

/-- A signature in a version has this version. -/
theorem Signature.version_asVersion (s : SignatureV1_1) (version : Version) :
    (s.asVersion version).version = version := by
  cases version <;> rfl

/-- The flags that accompany a request ask for the mode that they are answered in. -/
theorem FlagSet.mode_of_bindingMode? {flags : FlagSet CompilationFlag} {mode : BindingMode}
    (h : flags.bindingMode? = some mode) :
    (.globalRootSignature ∈ flags → mode = .globalMode) ∧
      (.localRootSignature ∈ flags → mode = .localMode) := by
  unfold FlagSet.bindingMode? at h
  by_cases hg : .globalRootSignature ∈ flags <;> by_cases hl : .localRootSignature ∈ flags <;>
    simp_all

/-- What a source is answered with is a well-formed description in the version that was asked for:
all flags that it carries are known, and the floats of its samplers are finite. It does not call
itself local if it was asked for as global, and it does if it was asked for as local. -/
theorem wellFormed_of_parseFor? {flags : FlagSet CompilationFlag} {source : String}
    {base : Location} {version : Version} {d : VersionedSignature}
    (h : parseFor? flags source base version = some (.ok d)) :
    d.version = version ∧ d.WellFormed ∧
      (.globalRootSignature ∈ flags → .localRootSignature ∉ d.flags) ∧
      (.localRootSignature ∈ flags → .localRootSignature ∈ d.flags) := by
  obtain ⟨mode, hmode, hparse⟩ := Option.map_eq_some_iff.1 h
  obtain ⟨hglobal, hlocal⟩ := FlagSet.mode_of_bindingMode? hmode
  obtain ⟨s, hread, rfl⟩ := parse_eq_ok_iff.1 hparse
  have hwritten := (readSource_signature_eq_ok_iff source base version mode s).1 hread
  have hs : SignatureV1_1.WellFormed s :=
    Signature.wellFormed_of_written hwritten fun t => isFinite_of_mem
  refine ⟨Signature.version_asVersion _ _, (hs.inMode mode).asVersion version, fun hmem => ?_,
    fun hmem => ?_⟩
  · obtain rfl := hglobal hmem
    exact (parse_globalMode_eq_ok_iff.1 hparse).2
  · obtain rfl := hlocal hmem
    rw [Signature.flags_asVersion]
    exact FlagSet.mem_union_right _ (FlagSet.mem_singleton _)

/-- The least float and the largest whole number are written in a local signature. -/
theorem wellFormed_of_parseFor?_sampler :
    ∃ d, parseFor? {.localRootSignature}
        "StaticSampler(s0, mipLODBias = -3.402823466e+38f, minLOD = 4294967295)" .first .v1_1 =
          some (.ok d) ∧
      d.version = .v1_1 ∧ d.WellFormed ∧ .localRootSignature ∈ d.flags := by
  obtain ⟨d, hparse⟩ : ∃ d, parse
      "StaticSampler(s0, mipLODBias = -3.402823466e+38f, minLOD = 4294967295)" .first .v1_1
      .localMode = .ok d :=
    ⟨_, parse_eq_ok_iff.2 ⟨_, signature_eq_ok_iff.2 ⟨by decide +kernel, rfl⟩, rfl⟩⟩
  have h : parseFor? {.localRootSignature}
      "StaticSampler(s0, mipLODBias = -3.402823466e+38f, minLOD = 4294967295)" .first .v1_1 =
        some (.ok d) := congrArg some hparse
  obtain ⟨hversion, hwell, -, hlocal⟩ := wellFormed_of_parseFor? h
  exact ⟨d, h, hversion, hwell, hlocal (by decide)⟩

end RootSignature
