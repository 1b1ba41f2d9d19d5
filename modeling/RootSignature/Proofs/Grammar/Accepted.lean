import RootSignature.Proofs.Grammar.Constructs

/-!
# What is read is the grammar

The root signatures that are read in version 1.1 are those of the grammar, each as the signature
that the grammar assigns to it (`parse_v1_1_eq_ok_iff`). The dialect counts for no more than the
grammar says, so declarations are read by their rule in both versions
(`readDeclarations_eq_ok_iff`).

From an opening word on, every declaration accepts its rule (`Declaration.acceptsAt`). A list of
declarations is followed along the loop that reads it in one direction, and along its derivation in
the other. A comma at the end is allowed here, but in no list of items.
-/

namespace RootSignature

open Grammar Reader

variable {dialect : Dialect}

/-! ## Declarations -/

/-- A construct opens with one word. -/
theorem Grammar.opening_of_construct {α β : Type} {o o' : Opening} {item : Rule α}
    {slot? : α → Option Slot} {Makes : List α → β → Prop} {ts : List Token} {b : β}
    (h : Construct o' item slot? Makes (.keyword (.opening o) :: ts) b) : o = o' := by
  obtain ⟨body, as, hts, -⟩ := h
  simpa using (List.cons_eq_cons.1 hts).1

namespace RootParameter

/-- What starts with the word for root constants is written as root constants. -/
theorem written_constants_iff {ts : List Token} {p : RootParameterV1_1} :
    Written dialect (.keyword (.opening .rootConstants) :: ts) p ↔
      Construct .rootConstants ConstantsItem.Written ConstantsItem.slot? ConstantsItem.Makes
        (.keyword (.opening .rootConstants) :: ts) p := by
  refine ⟨fun h => ?_, .constants⟩
  cases h with
  | constants h => exact h
  | descriptor type h => cases type <;> cases opening_of_construct h
  | table h => cases opening_of_construct h

theorem written_descriptor_iff {type : DescriptorType} {ts : List Token} {p : RootParameterV1_1} :
    Written dialect (.keyword (.opening type.opening) :: ts) p ↔
      Construct type.opening (DescriptorItem.Written dialect type) DescriptorItem.slot?
        (DescriptorItem.Makes type) (.keyword (.opening type.opening) :: ts) p := by
  refine ⟨fun h => ?_, .descriptor type⟩
  cases h with
  | constants h => cases type <;> cases opening_of_construct h
  | descriptor type' h =>
      obtain rfl : type' = type := by
        cases type <;> cases type' <;> first | rfl | cases opening_of_construct h
      exact h
  | table h => cases type <;> cases opening_of_construct h

theorem written_table_iff {ts : List Token} {p : RootParameterV1_1} :
    Written dialect (.keyword (.opening .descriptorTable) :: ts) p ↔
      Construct .descriptorTable (TableItem.Written dialect) TableItem.slot? TableItem.Makes
        (.keyword (.opening .descriptorTable) :: ts) p := by
  refine ⟨fun h => ?_, .table⟩
  cases h with
  | constants h => cases opening_of_construct h
  | descriptor type h => cases type <;> cases opening_of_construct h
  | table h => exact h

/-- A parameter opens with the word of a construct that is one. -/
theorem opening_of_written {t : Token} {ts : List Token} {p : RootParameterV1_1}
    (h : Written dialect (t :: ts) p) :
    t = .keyword (.opening .rootConstants) ∨ (∃ type : DescriptorType,
      t = .keyword (.opening type.opening)) ∨ t = .keyword (.opening .descriptorTable) := by
  cases h with
  | constants h =>
      obtain ⟨body, as, hts, -⟩ := h
      exact .inl (List.cons_eq_cons.1 hts).1
  | descriptor type h =>
      obtain ⟨body, as, hts, -⟩ := h
      exact .inr (.inl ⟨type, (List.cons_eq_cons.1 hts).1⟩)
  | table h =>
      obtain ⟨body, as, hts, -⟩ := h
      exact .inr (.inr (List.cons_eq_cons.1 hts).1)

/-- No parameter opens with the word for the flags of the whole or with that for a sampler. -/
theorem not_written {o : Opening} (ho : o = .rootFlags ∨ o = .staticSampler) {ts : List Token}
    {p : RootParameterV1_1} : ¬ Written dialect (.keyword (.opening o) :: ts) p := by
  intro h
  obtain hp | ⟨type, hp⟩ | hp := opening_of_written h
  · rcases ho with rfl | rfl <;> cases hp
  · rcases ho with rfl | rfl <;> cases type <;> cases hp
  · rcases ho with rfl | rfl <;> cases hp

end RootParameter

/-- The flags of the whole signature are read by their rule. -/
theorem Reader.acceptsAt_rootFlags (dialect : Dialect) :
    (rootFlags dialect).AcceptsAt (.keyword (.opening .rootFlags)) anyToken fun ts fs =>
      ∃ body, Flags (RootFlagWord dialect) body fs ∧
        ts = .keyword (.opening .rootFlags) :: .leftParen :: (body ++ [.rightParen]) := by
  have hflags : (flags dialect (· = .rightParen)).Accepts
      (fun t => decide (t = .rightParen) = true) (Flags (RootFlagWord dialect)) :=
    accepts_flags (accepts_rootFlagWord dialect) (by simp [RootFlagWord]) rfl
  intro stop l ls fs rest _ _
  unfold rootFlags
  rw [run_next_bind, run_expect_bind_eq_ok_iff (by decide)]
  refine ⟨fun h => ?_, fun h => ?_⟩
  · obtain ⟨paren, ls, rfl, hparen, h⟩ := h
    obtain ⟨fs', rest', hrun, hend⟩ := run_bind_eq_ok_iff.1 h
    obtain ⟨close, rest', rfl, hclose, hpure⟩ := (run_expect_bind_eq_ok_iff (by decide)).1 hend
    cases hpure
    obtain ⟨front, rfl, hfront⟩ :=
      (hflags stop ls fs (close :: rest) (decide_eq_true hclose)).1 hrun
    refine ⟨paren :: (front ++ [close]), by simp, _, hfront, ?_⟩
    simp [hparen, hclose]
  · obtain ⟨front, rfl, body, hbody, hts⟩ := h
    obtain ⟨paren, front, close, rfl, hparen, hclose, rfl⟩ := exists_of_inParens hts
    have hrun := (hflags stop (front ++ close :: rest) fs (close :: rest)
      (decide_eq_true hclose)).2 ⟨front, rfl, hbody⟩
    refine ⟨paren, front ++ close :: rest, by simp, hparen,
      run_bind_eq_ok_iff.2 ⟨fs, close :: rest, hrun, ?_⟩⟩
    exact (run_expect_bind_eq_ok_iff (by decide)).2 ⟨close, rest, rfl, hclose, rfl⟩

namespace Declaration

/-- From a word on that opens a parameter, a declaration is a parameter. -/
theorem acceptsAt_parameter {o : Opening} {r : Reader RootParameterV1_1}
    {rule : Rule RootParameterV1_1} (hr : r.AcceptsAt (.keyword (.opening o)) anyToken rule)
    (hrule : ∀ ts p, RootParameter.Written dialect (.keyword (.opening o) :: ts) p ↔
      rule (.keyword (.opening o) :: ts) p)
    (hflags : o ≠ .rootFlags) (hsampler : o ≠ .staticSampler) :
    (parameter <$> r).AcceptsAt (.keyword (.opening o)) anyToken (Written dialect) := by
  refine hr.map fun ts d => ?_
  refine ⟨fun h => ?_, fun h => ?_⟩
  · cases d with
    | rootFlags fs =>
        obtain ⟨body, -, hts⟩ := h
        exact absurd (by simpa using (List.cons_eq_cons.1 hts).1) hflags
    | parameter p => exact ⟨p, (hrule ts p).1 h, rfl⟩
    | staticSampler s => exact absurd (opening_of_construct h) hsampler
  · obtain ⟨p, hp, rfl⟩ := h
    exact (hrule ts p).2 hp

/-- From its opening word on, a declaration is read by its rule. -/
theorem acceptsAt {t : Token} {reader : Reader Declaration} (h : ofToken? dialect t = some reader) :
    reader.AcceptsAt t anyToken (Written dialect) := by
  have hdescriptor (type : DescriptorType) : (parameter <$> rootDescriptor dialect type).AcceptsAt
      (.keyword (.opening type.opening)) anyToken (Written dialect) :=
    acceptsAt_parameter
      (acceptsAt_construct DescriptorItem.itemsAccept DescriptorItem.ofItems_eq_ok_iff _)
      (fun _ _ => RootParameter.written_descriptor_iff) (by cases type <;> decide)
      (by cases type <;> decide)
  revert h
  fun_cases ofToken? dialect t with
  | case1 =>
      rintro ⟨⟩
      refine (acceptsAt_rootFlags dialect).map fun ts d => ?_
      refine ⟨fun h => ?_, fun hwritten => ?_⟩
      · cases d with
        | rootFlags fs => exact ⟨fs, h, rfl⟩
        | parameter p => exact absurd h (RootParameter.not_written (.inl rfl))
        | staticSampler s => cases opening_of_construct h
      · obtain ⟨fs, hfs, rfl⟩ := hwritten
        exact hfs
  | case2 =>
      rintro ⟨⟩
      exact acceptsAt_parameter
        (acceptsAt_construct ConstantsItem.itemsAccept ConstantsItem.ofItems_eq_ok_iff _)
        (fun _ _ => RootParameter.written_constants_iff) (by decide) (by decide)
  | case3 =>
      rintro ⟨⟩
      exact hdescriptor .cbv
  | case4 =>
      rintro ⟨⟩
      exact hdescriptor .srv
  | case5 =>
      rintro ⟨⟩
      exact hdescriptor .uav
  | case6 =>
      rintro ⟨⟩
      exact acceptsAt_parameter
        (acceptsAt_construct TableItem.itemsAccept TableItem.ofItems_eq_ok_iff _)
        (fun _ _ => RootParameter.written_table_iff) (by decide) (by decide)
  | case7 =>
      rintro ⟨⟩
      refine (acceptsAt_construct SamplerItem.itemsAccept SamplerItem.ofItems_eq_ok_iff _).map
        fun ts d => ?_
      refine ⟨fun h => ?_, fun hwritten => ?_⟩
      · cases d with
        | rootFlags fs =>
            obtain ⟨body, -, hts⟩ := h
            cases (List.cons_eq_cons.1 hts).1
        | parameter p => exact absurd h (RootParameter.not_written (.inr rfl))
        | staticSampler s => exact ⟨s, h, rfl⟩
      · obtain ⟨s, hs, rfl⟩ := hwritten
        exact hs
  | case8 => rintro ⟨⟩

/-- The first word of a declaration tells what it declares. -/
theorem isRootFlags_iff {t : Token} {ts : List Token} {d : Declaration}
    (h : Written dialect (t :: ts) d) :
    d.isRootFlags ↔ t = .keyword (.opening .rootFlags) := by
  cases d with
  | rootFlags fs =>
      obtain ⟨body, -, hts⟩ := h
      simpa [isRootFlags] using (List.cons_eq_cons.1 hts).1
  | parameter p =>
      obtain rfl | ⟨type, rfl⟩ | rfl := RootParameter.opening_of_written h
      · simp [isRootFlags]
      · cases type <;> simp [isRootFlags, DescriptorType.opening]
      · simp [isRootFlags]
  | staticSampler s =>
      obtain ⟨body, as, hts, -⟩ := h
      obtain rfl := (List.cons_eq_cons.1 hts).1
      simp [isRootFlags]

/-- A declaration starts with the word of a reader. -/
theorem exists_reader_of_written {ts : List Token} {d : Declaration} (h : Written dialect ts d) :
    ∃ t ts' reader, ts = t :: ts' ∧ ofToken? dialect t = some reader := by
  cases d with
  | rootFlags fs =>
      obtain ⟨body, -, rfl⟩ := h
      exact ⟨_, _, _, rfl, rfl⟩
  | parameter p =>
      cases h with
      | constants h =>
          obtain ⟨body, as, rfl, -⟩ := h
          exact ⟨_, _, _, rfl, rfl⟩
      | descriptor type h =>
          obtain ⟨body, as, rfl, -⟩ := h
          cases type <;> exact ⟨_, _, _, rfl, rfl⟩
      | table h =>
          obtain ⟨body, as, rfl, -⟩ := h
          exact ⟨_, _, _, rfl, rfl⟩
  | staticSampler s =>
      obtain ⟨body, as, rfl, -⟩ := h
      exact ⟨_, _, _, rfl, rfl⟩

end Declaration

/-! ## Lists of declarations -/

/-- A declaration may stand before a list of declarations, with a comma between them. -/
theorem Grammar.Declarations.cons {ts ts' : List Token} {d : Declaration} {ds : List Declaration}
    (hd : Declaration.Written dialect ts d) (h : Declarations dialect ts' ds) :
    Declarations dialect (ts ++ .comma :: ts') (d :: ds) := by
  cases h with
  | empty => exact .trailingComma (.single hd)
  | list hds => exact .list (.cons hd hds)
  | @trailingComma ts' ds hds =>
      have hlist : CommaList (Declaration.Written dialect) (ts ++ .comma :: ts') (d :: ds) :=
        .cons hd hds
      simpa using Declarations.trailingComma hlist

/-- The flags of the whole are declared at most once, counting that they have been before. -/
def FlagsRoom (flagsDeclared : Bool) (ds : List Declaration) : Prop :=
  (ds.filter Declaration.isRootFlags).length + flagsDeclared.toNat ≤ 1

theorem flagsRoom_nil (flagsDeclared : Bool) : FlagsRoom flagsDeclared [] := by
  cases flagsDeclared <;> simp [FlagsRoom]

/-- There is room for a declaration and more if there is room for the declaration, and then still
for the others. -/
theorem flagsRoom_cons {flagsDeclared : Bool} {d : Declaration} {ds : List Declaration} :
    FlagsRoom flagsDeclared (d :: ds) ↔
      ¬ (d.isRootFlags ∧ flagsDeclared) ∧ FlagsRoom (flagsDeclared || d.isRootFlags) ds := by
  unfold FlagsRoom
  cases flagsDeclared <;> cases hd : d.isRootFlags <;> simp [hd]

section
variable {stop : Location} {flagsDeclared : Bool} {ls rest : List Lexeme} {d : Declaration}

/-- A declaration that has been read is written so, and it does not declare again what can be
declared once. -/
theorem written_of_run {first : Lexeme} {reader : Reader Declaration}
    (hfirst : ¬ (first.token = .keyword (.opening .rootFlags) ∧ flagsDeclared))
    (hreader : Declaration.ofToken? dialect first.token = some reader)
    (hrun : reader.run stop (first :: ls) = (.ok d, rest)) :
    ∃ front, first :: ls = front ++ rest ∧ Declaration.Written dialect (front.map Lexeme.token) d ∧
      ¬ (d.isRootFlags ∧ flagsDeclared) := by
  obtain ⟨front, rfl, hfront⟩ :=
    (Declaration.acceptsAt hreader stop first ls d rest rfl trivial).1 hrun
  refine ⟨first :: front, rfl, hfront, ?_⟩
  rwa [Declaration.isRootFlags_iff hfront]

/-- What is read as declarations is written so, and the flags of the whole are declared at most
once. -/
theorem declarations_of_readDeclarations
    (h : (readDeclarations dialect stop flagsDeclared ls).failure? = none) :
    Declarations dialect (ls.map Lexeme.token)
        (readDeclarations dialect stop flagsDeclared ls).declarations ∧
      FlagsRoom flagsDeclared (readDeclarations dialect stop flagsDeclared ls).declarations := by
  fun_induction readDeclarations dialect stop flagsDeclared ls with
  | case1 => exact ⟨.empty, flagsRoom_nil _⟩
  | case2 | case3 | case4 | case7 => cases h
  | case5 flagsDeclared first ls hfirst reader hreader d hrun =>
      obtain ⟨front, hfront, hd, hflags⟩ := written_of_run hfirst hreader hrun
      rw [hfront, List.append_nil]
      exact ⟨.list (.single hd), flagsRoom_cons.2 ⟨hflags, flagsRoom_nil _⟩⟩
  | case6 flagsDeclared first ls hfirst reader hreader d separator rest hrun hcomma reading ih =>
      obtain ⟨front, hfront, hd, hflags⟩ := written_of_run hfirst hreader hrun
      obtain ⟨hds, hroom⟩ := ih h
      rw [hfront, List.map_append, List.map_cons, hcomma]
      exact ⟨.cons hd hds, flagsRoom_cons.2 ⟨hflags, hroom⟩⟩

/-- What is written as a declaration is read by the reader that its first word stands for. -/
theorem Declaration.exists_run_of_written {front : List Lexeme}
    (hd : Written dialect (front.map Lexeme.token) d) (stop : Location) (rest : List Lexeme) :
    ∃ first tail reader, front = first :: tail ∧
      (d.isRootFlags ↔ first.token = .keyword (.opening .rootFlags)) ∧
      ofToken? dialect first.token = some reader ∧
      reader.run stop (first :: (tail ++ rest)) = (.ok d, rest) := by
  obtain ⟨t, ts, reader, hts, hreader⟩ := exists_reader_of_written hd
  obtain ⟨first, tail, rfl, rfl, -⟩ := List.map_eq_cons_iff.1 hts
  rw [List.map_cons] at hd
  exact ⟨first, tail, reader, rfl, isRootFlags_iff hd, hreader,
    (acceptsAt hreader stop first (tail ++ rest) d rest rfl trivial).2 ⟨tail, rfl, hd⟩⟩

/-- One step of reading what is written as a declaration, up to its separator if there is one. -/
theorem readDeclarations_of_written {front : List Lexeme}
    (hd : Declaration.Written dialect (front.map Lexeme.token) d)
    (hflags : ¬ (d.isRootFlags ∧ flagsDeclared)) :
    readDeclarations dialect stop flagsDeclared (front ++ rest) =
      match rest with
      | [] => ⟨[d], none, []⟩
      | separator :: rest =>
        if separator.token = .comma then
          let reading := readDeclarations dialect stop (flagsDeclared || d.isRootFlags) rest
          { reading with declarations := d :: reading.declarations }
        else ⟨[d], some (.atLexeme (.expectedComma separator.text) separator), rest⟩ := by
  obtain ⟨first, tail, reader, rfl, hword, hreader, hrun⟩ :=
    Declaration.exists_run_of_written hd stop rest
  rw [hword] at hflags
  rw [List.cons_append, readDeclarations_cons, if_neg hflags, hreader]
  dsimp only
  rw [hrun]
  cases rest <;> rfl

/-- Declarations with commas between them, and perhaps one at the end, are read. -/
theorem readDeclarations_of_commaList {ts : List Token} {ds : List Declaration}
    (h : CommaList (Declaration.Written dialect) ts ds) {front trailing : List Lexeme}
    (hts : front.map Lexeme.token = ts)
    (htrailing : trailing = [] ∨ ∃ comma, trailing = [comma] ∧ comma.token = .comma)
    (hroom : FlagsRoom flagsDeclared ds) :
    readDeclarations dialect stop flagsDeclared (front ++ trailing) = ⟨ds, none, []⟩ := by
  induction h generalizing front flagsDeclared with
  | single hd =>
      subst hts
      rw [readDeclarations_of_written hd (flagsRoom_cons.1 hroom).1]
      rcases htrailing with rfl | ⟨comma, rfl, hcomma⟩
      · rfl
      · dsimp only
        rw [if_pos hcomma, readDeclarations]
  | @cons ts ts' d ds hd _ ih =>
      obtain ⟨front₁, front₂, rfl, rfl, hts'⟩ := List.map_eq_append_iff.1 hts
      obtain ⟨comma, front, rfl, hcomma, hfront⟩ := List.map_eq_cons_iff.1 hts'
      rw [flagsRoom_cons] at hroom
      rw [List.append_assoc, List.cons_append, readDeclarations_of_written hd hroom.1]
      dsimp only
      rw [if_pos hcomma, ih hfront hroom.2]

/-- Reading declarations to the end accepts the lists of declarations in which the flags of the
whole are declared at most once. -/
theorem readDeclarations_eq_ok_iff {ds : List Declaration} :
    (readDeclarations dialect stop flagsDeclared ls).failure? = none ∧
        (readDeclarations dialect stop flagsDeclared ls).declarations = ds ↔
      Declarations dialect (ls.map Lexeme.token) ds ∧ FlagsRoom flagsDeclared ds := by
  refine ⟨fun h => ?_, fun h => ?_⟩
  · obtain ⟨hnone, rfl⟩ := h
    exact declarations_of_readDeclarations hnone
  · obtain ⟨hlist, hroom⟩ := h
    have hread : readDeclarations dialect stop flagsDeclared ls = ⟨ds, none, []⟩ := by
      generalize hts : ls.map Lexeme.token = ts at hlist
      cases hlist with
      | empty =>
          obtain rfl := List.map_eq_nil_iff.1 hts
          rw [readDeclarations]
      | list hds => simpa using readDeclarations_of_commaList hds hts (.inl rfl) hroom
      | trailingComma hds =>
          obtain ⟨front, trailing, rfl, hfront, htrailing⟩ := List.map_eq_append_iff.1 hts
          obtain ⟨comma, rfl, hcomma⟩ := List.map_eq_singleton_iff.1 htrailing
          exact readDeclarations_of_commaList hds hfront (.inr ⟨comma, rfl, hcomma⟩) hroom
    rw [hread]
    exact ⟨rfl, rfl⟩

end

/-! ## Signatures -/

/-- The flags of the whole are declared once at most, so any two declarations of them agree. -/
theorem eq_of_rootFlags_mem {ds : List Declaration} (h : FlagsRoom false ds)
    {fs fs' : FlagSet RootFlag} (hfs : .rootFlags fs ∈ ds) (hfs' : .rootFlags fs' ∈ ds) :
    fs = fs' := by
  have hmem : Declaration.rootFlags fs ∈ ds.filter Declaration.isRootFlags :=
    List.mem_filter.2 ⟨hfs, rfl⟩
  have hmem' : Declaration.rootFlags fs' ∈ ds.filter Declaration.isRootFlags :=
    List.mem_filter.2 ⟨hfs', rfl⟩
  unfold FlagsRoom at h
  cases hlist : ds.filter Declaration.isRootFlags with
  | nil => simp [hlist] at hmem
  | cons d ds' =>
      have hnil : ds' = [] := by simpa [hlist] using h
      rw [hlist, hnil, List.mem_singleton] at hmem hmem'
      cases hmem.trans hmem'.symm
      rfl

/-- Declarations make the signature that the grammar says. -/
theorem ofDeclarations_eq_iff {ds : List Declaration} {s : SignatureV1_1} (h : FlagsRoom false ds) :
    Signature.ofDeclarations ds = s ↔ Signature.MadeOf ds s := by
  have huniq (fs fs' : FlagSet RootFlag) (hfs : .rootFlags fs ∈ ds) (hfs' : .rootFlags fs' ∈ ds) :
      fs = fs' := eq_of_rootFlags_mem h hfs hfs'
  refine ⟨fun hs => ?_, fun hmade => ?_⟩
  · obtain rfl := hs
    refine ⟨(getD_findSome?_eq_iff ?_ huniq).1 rfl, rfl, rfl⟩
    intro d fs
    cases d <;> simp
  · refine Signature.ext ((getD_findSome?_eq_iff ?_ huniq).2 hmade.flags) hmade.parameters.symm
      hmade.staticSamplers.symm
    intro d fs
    cases d <;> simp

/-- A signature is made of all declarations if none of them has failed. -/
theorem signature_eq_ok_iff {r : Reading} {s : SignatureV1_1} :
    r.signature = .ok s ↔ r.failure? = none ∧ Signature.ofDeclarations r.declarations = s := by
  unfold Reading.signature
  cases r.failure? <;> simp

/-- The failure of a reading is its error. -/
theorem signature_eq_error_iff {r : Reading} {e : ParseError} :
    r.signature = .error e ↔ r.failure? = some e := by
  unfold Reading.signature
  cases r.failure? <;> simp

/-- A source is read as the signature that the grammar assigns to its tokens. -/
theorem readSource_signature_eq_ok_iff (source : String) (base : Location) (version : Version)
    (mode : BindingMode) (s : SignatureV1_1) :
    (readSource source base version mode).signature = .ok s ↔
      Signature.Written (mode.dialect version)
        ((TokenStream.ofSource source base).lexemes.map Lexeme.token) s := by
  rw [signature_eq_ok_iff]
  refine ⟨fun h => ?_, fun h => ?_⟩
  · obtain ⟨hnone, hs⟩ := h
    obtain ⟨hds, hroom⟩ := declarations_of_readDeclarations hnone
    exact ⟨_, hds, hroom, (ofDeclarations_eq_iff hroom).1 hs⟩
  · obtain ⟨ds, hds, hroom, hs⟩ := h
    obtain ⟨hnone, hds⟩ :
        (readSource source base version mode).failure? = none ∧
          (readSource source base version mode).declarations = ds :=
      readDeclarations_eq_ok_iff.2 ⟨hds, hroom⟩
    exact ⟨hnone, hds ▸ (ofDeclarations_eq_iff hroom).2 hs⟩

end RootSignature
