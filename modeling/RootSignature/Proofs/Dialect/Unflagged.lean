import RootSignature.Proofs.Error.Blame

/-!
# Version 1.0 reads no flags

No descriptor and no range that is written in the dialect of version 1.0 carries a flag
(`firstFlagged?_eq_none_of_written`), so what has been read in this version can always be converted
to it. The answer of `parse` is thus the one of reading, with the flag of the mode and in the
version that is asked for (`parse_v1_0_eq`, `parse_v1_1_eq`), and an error of `parse` is always one
of reading (`parse_eq_error_iff`).
-/

namespace RootSignature

open Grammar Reader

variable {dialect : Dialect}

/-! ## Nothing that is written has flags -/

/-- Each item of a list is written by the rule of items, with tokens of the list. -/
theorem Grammar.CommaList.exists_of_mem {α : Type} {item : Rule α} {ts : List Token} {as : List α}
    (h : CommaList item ts as) {a : α} (ha : a ∈ as) : ∃ ts', ts' ⊆ ts ∧ item ts' a := by
  induction h with
  | @single ts b hb =>
      obtain rfl := List.mem_singleton.1 ha
      exact ⟨ts, List.Subset.refl ts, hb⟩
  | @cons ts ts' b as hb _ ih =>
      rcases List.mem_cons.1 ha with rfl | ha
      · exact ⟨ts, List.subset_append_left ts _, hb⟩
      · obtain ⟨ts'', hsubset, ha⟩ := ih ha
        have htail : ts' ⊆ ts ++ .comma :: ts' :=
          List.Subset.trans (List.subset_cons_self _ _) (List.subset_append_right ts _)
        exact ⟨ts'', List.Subset.trans hsubset htail, ha⟩

/-- Each declaration is written by the rule of declarations, with tokens of the list. -/
theorem Grammar.Declarations.exists_of_mem {ts : List Token} {ds : List Declaration}
    (h : Declarations dialect ts ds) {d : Declaration} (hd : d ∈ ds) :
    ∃ ts', ts' ⊆ ts ∧ Declaration.Written dialect ts' d := by
  cases h with
  | empty => cases hd
  | list hlist => exact hlist.exists_of_mem hd
  | trailingComma hlist =>
      obtain ⟨ts', hsubset, hd⟩ := hlist.exists_of_mem hd
      exact ⟨ts', List.Subset.trans hsubset (List.subset_append_left _ _), hd⟩

/-- What is given by no item is the default. -/
theorem Grammar.GivenOr.eq_default {α β : Type} {items : List α} {item : β → α} {default b : β}
    (h : GivenOr items item default b) (hnone : ∀ b', item b' ∉ items) : b = default := by
  rcases h with hmem | ⟨-, hb⟩
  · exact absurd hmem (hnone b)
  · exact hb

/-- What only version 1.1 can write is not given in version 1.0, and is then the default. -/
theorem Grammar.GivenOr.eq_default_of_v1_0 {α β : Type} {items : List α} {item : β → α}
    {default b : β} (h : GivenOr items item default b) (hversion : dialect.version = .v1_0)
    {rule : Rule α} {ts : List Token} (hlist : CommaList rule ts items)
    (hitem : ∀ ts b, rule ts (item b) → dialect.version = .v1_1) : b = default := by
  refine h.eq_default fun b' hmem => ?_
  obtain ⟨ts, -, hwritten⟩ := hlist.exists_of_mem hmem
  cases hversion.symm.trans (hitem ts b' hwritten)

/-- A range that is written in version 1.0 has no flags. -/
theorem DescriptorRange.flags_eq_empty_of_written (hversion : dialect.version = .v1_0)
    {ts : List Token} {r : DescriptorRange (FlagSet RangeFlag)} (h : r.Written dialect ts) :
    r.flags = ∅ := by
  obtain ⟨body, items, -, hlist, -, hmakes⟩ := h
  have hflags : GivenOr items RangeItem.flags ∅ r.flags := by
    generalize r.type = type at hmakes
    cases hmakes with
    | intro _ _ _ _ hflags => exact hflags
  exact hflags.eq_default_of_v1_0 hversion hlist fun _ _ hitem => hitem.1

/-- No binding that is written in version 1.0 carries flags. -/
theorem RootParameter.firstFlagged?_eq_none_of_written (hversion : dialect.version = .v1_0)
    {ts : List Token} {p : RootParameterV1_1} (h : Written dialect ts p) (i : Nat) :
    p.binding.firstFlagged? i = none := by
  cases h with
  | constants h =>
      obtain ⟨body, items, -, -, -, hmakes⟩ := h
      cases hmakes
      rfl
  | descriptor type h =>
      obtain ⟨body, items, -, hlist, -, hmakes⟩ := h
      cases hmakes with
      | intro _ _ hflags _ =>
          obtain rfl := hflags.eq_default_of_v1_0 hversion hlist fun _ _ hitem => hitem.1
          rfl
  | table h =>
      obtain ⟨body, items, -, hlist, -, hmakes⟩ := h
      cases hmakes with
      | intro _ =>
          have hranges : (items.filterMap TableItem.range?).findIdx? (fun r => !r.flags.isEmpty) =
              none := by
            rw [List.findIdx?_eq_none_iff]
            intro r hr
            obtain ⟨item, hitem, hrange⟩ := List.mem_filterMap.1 hr
            cases item with
            | visibility v => cases hrange
            | range r' =>
                cases hrange
                obtain ⟨ts, -, hr'⟩ := hlist.exists_of_mem hitem
                rw [DescriptorRange.flags_eq_empty_of_written hversion hr']
                rfl
          rw [Binding.firstFlagged?, hranges]
          rfl

/-- No signature that is written in version 1.0 carries flags on descriptors or ranges. -/
theorem Signature.firstFlagged?_eq_none_of_written (hversion : dialect.version = .v1_0)
    {ts : List Token} {s : SignatureV1_1} (h : Signature.Written dialect ts s) :
    s.firstFlagged? = none := by
  obtain ⟨ds, hds, -, hmade⟩ := h
  unfold Signature.firstFlagged?
  rw [List.findSome?_eq_none_iff]
  rintro ⟨p, i⟩ hp
  have hmem : p ∈ s.parameters := List.fst_mem_of_mem_zipIdx hp
  rw [hmade.parameters] at hmem
  obtain ⟨d, hd, hdp⟩ := List.mem_filterMap.1 hmem
  cases d with
  | rootFlags fs => cases hdp
  | staticSampler s => cases hdp
  | parameter p' =>
      cases hdp
      obtain ⟨ts, -, hp'⟩ := hds.exists_of_mem hd
      exact RootParameter.firstFlagged?_eq_none_of_written hversion hp' i

/-! ## The answers of parsing -/

/-- The mode of a signature does not add flags to its parameters. -/
theorem Signature.firstFlagged?_inMode (s : SignatureV1_1) (mode : BindingMode) :
    (s.inMode mode).firstFlagged? = s.firstFlagged? := by
  cases mode <;> rfl

/-- A signature without flags has a description in every version. -/
theorem Signature.convert_eq_ok {s : SignatureV1_1} (h : s.firstFlagged? = none) :
    (VersionedSignature.v1_1 s).convert .v1_0 = .ok (.v1_0 s.eraseFlags) := by
  rw [VersionedSignature.convert, Signature.downgrade, h]
  rfl

/-- What is read in version 1.0 carries no flags on descriptors or ranges. -/
theorem firstFlagged?_eq_none_of_readSource {source : String} {base : Location}
    {mode : BindingMode} {s : SignatureV1_1}
    (h : (readSource source base .v1_0 mode).signature = .ok s) :
    (s.inMode mode).firstFlagged? = none := by
  have hwritten := (readSource_signature_eq_ok_iff source base .v1_0 mode s).1 h
  rw [Signature.firstFlagged?_inMode]
  exact Signature.firstFlagged?_eq_none_of_written rfl hwritten

/-- In version 1.1, what is read is the answer. -/
theorem parse_v1_1_eq (source : String) (base : Location) (mode : BindingMode) :
    parse source base .v1_1 mode =
      (readSource source base .v1_1 mode).signature.map fun s => .v1_1 (s.inMode mode) := by
  unfold parse
  cases (readSource source base .v1_1 mode).signature <;> rfl

/-- In version 1.0, what is read is the answer without its flags, and never fails to convert. -/
theorem parse_v1_0_eq (source : String) (base : Location) (mode : BindingMode) :
    parse source base .v1_0 mode =
      (readSource source base .v1_0 mode).signature.map fun s =>
        .v1_0 (s.inMode mode).eraseFlags := by
  unfold parse
  cases hread : (readSource source base .v1_0 mode).signature with
  | error e => rfl
  | ok s =>
      have hnone := firstFlagged?_eq_none_of_readSource hread
      show (s.inMode mode).inVersion .v1_0 base = _
      rw [Signature.inVersion, Signature.convert_eq_ok hnone]
      rfl

/-- The description of a signature in a version that is short of nothing: version 1.0 leaves out the
flags of descriptors and ranges. -/
def Signature.asVersion (s : SignatureV1_1) : Version → VersionedSignature
  | .v1_0 => .v1_0 s.eraseFlags
  | .v1_1 => .v1_1 s

/-- What is answered is what has been read, in the mode and in the version that are asked for. -/
theorem parse_eq_map (source : String) (base : Location) (version : Version) (mode : BindingMode) :
    parse source base version mode =
      (readSource source base version mode).signature.map fun s =>
        (s.inMode mode).asVersion version := by
  cases version with
  | v1_0 => exact parse_v1_0_eq source base mode
  | v1_1 => exact parse_v1_1_eq source base mode

/-- A source has an answer just if it can be read, and then it is what has been read. -/
theorem parse_eq_ok_iff {source : String} {base : Location} {version : Version}
    {mode : BindingMode} {d : VersionedSignature} :
    parse source base version mode = .ok d ↔
      ∃ s, (readSource source base version mode).signature = .ok s ∧
        (s.inMode mode).asVersion version = d := by
  rw [parse_eq_map]
  cases (readSource source base version mode).signature <;> simp [Except.map]

/-- Whether a source is accepted, and as what, depends on its tokens alone. -/
theorem parse_eq_ok_of_tokens_eq {source source' : String} {base base' : Location}
    {version : Version} {mode : BindingMode} {d : VersionedSignature}
    (htokens : (TokenStream.ofSource source' base').lexemes.map Lexeme.token =
      (TokenStream.ofSource source base).lexemes.map Lexeme.token)
    (h : parse source base version mode = .ok d) : parse source' base' version mode = .ok d := by
  obtain ⟨s, hread, hs⟩ := parse_eq_ok_iff.1 h
  refine parse_eq_ok_iff.2 ⟨s, ?_, hs⟩
  rw [readSource_signature_eq_ok_iff] at hread ⊢
  rwa [htokens]

section
variable {source : String} {base : Location} {version : Version} {mode : BindingMode}

/-- What is accepted is a list of declarations, and is described by them. -/
theorem declarations_of_parse {d : VersionedSignature}
    (h : parse source base version mode = .ok d) :
    ∃ ds, (readSource source base version mode).declarations = ds ∧
      Declarations (mode.dialect version)
        ((TokenStream.ofSource source base).lexemes.map Lexeme.token) ds ∧
      FlagsRoom false ds ∧ ((Signature.ofDeclarations ds).inMode mode).asVersion version = d := by
  obtain ⟨s, hread, hd⟩ := parse_eq_ok_iff.1 h
  obtain ⟨hnone, rfl⟩ := signature_eq_ok_iff.1 hread
  obtain ⟨hds, hroom⟩ := declarations_of_readDeclarations hnone
  exact ⟨_, rfl, hds, hroom, hd⟩

/-- A list of declarations is accepted and described by them. -/
theorem parse_of_declarations {ds : List Declaration}
    (hds : Declarations (mode.dialect version)
      ((TokenStream.ofSource source base).lexemes.map Lexeme.token) ds)
    (hroom : FlagsRoom false ds) :
    parse source base version mode =
      .ok (((Signature.ofDeclarations ds).inMode mode).asVersion version) := by
  obtain ⟨hnone, rfl⟩ :
      (readSource source base version mode).failure? = none ∧
        (readSource source base version mode).declarations = ds :=
    readDeclarations_eq_ok_iff.2 ⟨hds, hroom⟩
  exact parse_eq_ok_iff.2 ⟨_, signature_eq_ok_iff.2 ⟨hnone, rfl⟩, rfl⟩

end

/-- The errors of parsing are those of reading: what has been read can be converted. -/
theorem parse_eq_error_iff (source : String) (base : Location) (version : Version)
    (mode : BindingMode) (e : ParseError) :
    parse source base version mode = .error e ↔
      (readSource source base version mode).failure? = some e := by
  rw [parse_eq_map, ← signature_eq_error_iff]
  cases (readSource source base version mode).signature <;> simp [Except.map]

/-- An error of parsing blames a lexeme of the source, or its end, for a reason that fits. -/
theorem blame_of_parse {source : String} {base : Location} {version : Version} {mode : BindingMode}
    {e : ParseError} (h : parse source base version mode = .error e) :
    Blame (mode.dialect version) (TokenStream.ofSource source base).stop
      (TokenStream.ofSource source base).lexemes e (readSource source base version mode).rest :=
  blame_of_readDeclarations ((parse_eq_error_iff source base version mode e).1 h)

end RootSignature
