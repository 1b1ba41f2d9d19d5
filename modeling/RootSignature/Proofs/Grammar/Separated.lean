import Mathlib.Data.List.Chain
import RootSignature.Proofs.Grammar.Written

/-!
# What all rules keep

Each rule of the grammar takes single tokens, and joins what other rules write by punctuation marks.
So a property of lists of tokens holds of whatever is written if it holds of single tokens and is
kept by joining (`Joins`). The words `RootFlags` are the exception, since they are written by one
rule only.

Two such properties are of use. What is written is separated: all tokens are known, and a
punctuation mark stands between any two literals, registers or keywords
(`Signature.separated_of_written`). And `RootFlags` is written as often as the flags of the whole
signature are declared (`Grammar.Declarations.count_rootFlags`).
-/

namespace RootSignature

open Grammar

/-- A token that denotes something: a literal, a register or a keyword. -/
def Token.isValue : Token → Bool
  | uint _ | int _ | float _ | register _ | keyword _ => true
  | eof | comma | leftParen | rightParen | equals | verticalBar | unknown => false

/-- The opening word of the flags of the whole signature. -/
abbrev Token.rootFlags : Token := .keyword (.opening .rootFlags)

/-- A property of lists of tokens that holds of single tokens other than `RootFlags`, and is kept
when lists are joined by a punctuation mark. -/
structure Joins (P : List Token → Prop) : Prop where
  nil : P []
  single : ∀ t : Token, t.isValue = true → t ≠ .rootFlags → P [t]
  append_cons : ∀ (ts : List Token) (mark : Token) (ts' : List Token), mark ≠ .unknown →
    mark.isValue = false → P ts → P ts' → P (ts ++ mark :: ts')

/-- What is written by the rule has the property. -/
def Writes {α : Type} (P : List Token → Prop) (rule : Rule α) : Prop :=
  ∀ ts a, rule ts a → P ts

namespace Joins

variable {α β : Type} {P : List Token → Prop} (h : Joins P)
include h

/-! ## Values -/

/-- A whole number has the property. -/
theorem number : Writes P Number := by
  rintro ts n rfl
  exact h.single _ rfl (by simp)

theorem floatNumber : Writes P FloatNumber := by
  rintro ts x hx
  cases hx <;> exact h.single _ rfl (by simp)

theorem word {keyword : α → Keyword} (hword : ∀ a, keyword a ≠ .opening .rootFlags) :
    Writes P (Word keyword) := by
  rintro ts a rfl
  exact h.single _ rfl (by simpa using hword a)

theorem count : Writes P Count := by
  rintro ts (n | _) hc
  · exact h.number ts n hc
  · obtain rfl := hc
    exact h.single _ rfl (by simp)

theorem offset : Writes P Offset := by
  rintro ts (n | _) ho
  · exact h.number ts n ho
  · obtain rfl := ho
    exact h.single _ rfl (by simp)

theorem register (c : RegisterClass) : Writes P (Grammar.Register c) := by
  rintro ts n rfl
  exact h.single _ rfl (by simp)

/-- Flags that are keywords are joined by bars. -/
theorem flags {F : Type} [Flag F] {word : Token → F → Prop}
    (hword : ∀ t f, word t f → ∃ k, t = .keyword k ∧ k ≠ .opening .rootFlags) :
    Writes P (Flags word) := by
  have hsingle (t : Token) (f : F) (ht : word t f) : P [t] := by
    obtain ⟨k, rfl, hk⟩ := hword t f ht
    exact h.single _ rfl (by simpa using hk)
  have hwords : Writes P (FlagWords word) := by
    intro ts fs hfs
    induction hfs with
    | single ht => exact hsingle _ _ ht
    | cons ht _ ih => exact h.append_cons [_] _ _ (by simp) rfl (hsingle _ _ ht) ih
  rintro ts fs (_ | hfs)
  · exact h.single _ rfl (by simp)
  · exact hwords _ _ hfs

/-! ## Lists -/

/-- A name is joined to its value by an equals sign. -/
theorem named {value : Rule α} (hvalue : Writes P value) (p : Parameter) :
    Writes P (Named p value) := by
  rintro ts a ⟨vs, rfl, hvs⟩
  exact h.append_cons [_] _ _ (by simp) rfl (h.single _ rfl (by simp)) (hvalue vs a hvs)

/-- Items with commas between them have the property if each item has it. -/
theorem commaList {item : Rule α} (hitem : Writes P item) : Writes P (CommaList item) := by
  intro ts as has
  induction has with
  | single ha => exact hitem _ _ ha
  | cons ha _ ih => exact h.append_cons _ _ _ (by simp) rfl (hitem _ _ ha) ih

/-- What stands in parentheses is joined to its opening word by a parenthesis. -/
theorem parentheses {body : List Token} (hbody : P body) :
    P (body ++ [.rightParen]) :=
  h.append_cons _ _ _ (by simp) rfl hbody h.nil

/-- A construct has the property if its items have it. -/
theorem construct {item : Rule α} (hitem : Writes P item) {opening : Opening}
    (hopening : opening ≠ .rootFlags) (slot? : α → Option Slot) (Makes : List α → β → Prop) :
    Writes P (Construct opening item slot? Makes) := by
  rintro ts b ⟨body, as, rfl, hbody, -, -⟩
  exact h.append_cons [_] _ _ (by simp) rfl (h.single _ rfl (by simpa using hopening))
    (h.parentheses (h.commaList hitem body as hbody))

/-! ## Items and declarations -/

variable {dialect : Dialect}

/-- Items of root constants have the property. -/
theorem constantsItem : Writes P ConstantsItem.Written := by
  rintro ts (n | n | n | v) hitem
  · exact h.named h.number _ ts n hitem
  · exact h.register _ ts n hitem
  · exact h.named h.number _ ts n hitem
  · exact h.named (h.word (by simp)) _ ts v hitem

theorem descriptorItem (type : DescriptorType) :
    Writes P (DescriptorItem.Written dialect type) := by
  rintro ts (n | fs | n | v) hitem
  · exact h.register _ ts n hitem
  · exact h.named (h.flags fun _ _ ht => ⟨_, ht, by simp⟩) _ ts fs hitem.2
  · exact h.named h.number _ ts n hitem
  · exact h.named (h.word (by simp)) _ ts v hitem

theorem rangeItem (type : RangeType) : Writes P (RangeItem.Written dialect type) := by
  rintro ts (n | c | n | fs | o) hitem
  · exact h.register _ ts n hitem
  · exact h.named h.count _ ts c hitem
  · exact h.named h.number _ ts n hitem
  · exact h.named (h.flags fun _ _ ht => ⟨_, ht, by simp⟩) _ ts fs hitem.2
  · exact h.named h.offset _ ts o hitem

theorem tableItem : Writes P (TableItem.Written dialect) := by
  rintro ts (r | v) hitem
  · have hopening : r.type.opening ≠ .rootFlags := by cases r.type <;> decide
    exact h.construct (h.rangeItem r.type) hopening _ _ ts r hitem
  · exact h.named (h.word (by simp)) _ ts v hitem

theorem samplerItem : Writes P SamplerItem.Written := by
  intro ts item hitem
  cases item with
  | filter | addressU | addressV | addressW | comparison | borderColor | visibility =>
      exact h.named (h.word (by simp)) _ ts _ hitem
  | mipLodBias | minLod | maxLod => exact h.named h.floatNumber _ ts _ hitem
  | maxAnisotropy | space => exact h.named h.number _ ts _ hitem
  | register n => exact h.register _ ts n hitem

/-- All declarations but those of the flags of the whole signature have the property. These have it
behind their opening word. -/
theorem declaration {ts : List Token} {d : Declaration} (hd : Declaration.Written dialect ts d) :
    (d.isRootFlags = false ∧ P ts) ∨
      ∃ body, d.isRootFlags = true ∧ ts = .rootFlags :: .leftParen :: body ∧ P body := by
  cases d with
  | rootFlags fs =>
      obtain ⟨body, hbody, rfl⟩ := hd
      have hflags : P body := h.flags (fun _ _ ht => ⟨_, ht.1, by simp⟩) body fs hbody
      exact .inr ⟨_, rfl, rfl, h.parentheses hflags⟩
  | parameter p =>
      refine .inl ⟨rfl, ?_⟩
      cases hd with
      | constants hd => exact h.construct h.constantsItem (by decide) _ _ ts p hd
      | descriptor type hd =>
          have hopening : type.opening ≠ .rootFlags := by cases type <;> decide
          exact h.construct (h.descriptorItem type) hopening _ _ ts p hd
      | table hd => exact h.construct h.tableItem (by decide) _ _ ts p hd
  | staticSampler s =>
      exact .inl ⟨rfl, h.construct h.samplerItem (by decide) _ _ ts s hd⟩

end Joins

/-! ## Separated lists -/

variable {dialect : Dialect}

/-- All tokens are known, and of two neighbours at most one is a literal, a register or a
keyword. -/
structure Separated (ts : List Token) : Prop where
  known : ∀ t ∈ ts, t ≠ .unknown
  chain : ts.IsChain fun t t' => ¬ (t.isValue ∧ t'.isValue)

namespace Separated

theorem nil : Separated [] := ⟨by simp, .nil⟩

theorem single {t : Token} (ht : t ≠ .unknown) : Separated [t] := ⟨by simpa using ht, .singleton t⟩

/-- Separated lists may be joined by a punctuation mark. -/
theorem append_cons {ts ts' : List Token} {mark : Token} (h : Separated ts) (h' : Separated ts')
    (hknown : mark ≠ .unknown) (hmark : mark.isValue = false) : Separated (ts ++ mark :: ts') := by
  refine ⟨fun t ht => ?_, h.chain.append (h'.chain.cons ?_) ?_⟩
  · rcases List.mem_append.1 ht with ht | ht
    · exact h.known t ht
    · rcases List.mem_cons.1 ht with rfl | ht
      · exact hknown
      · exact h'.known t ht
  · simp [hmark]
  · simp [hmark]

/-- Tokens stay separated if a mark is put between two lists of them. -/
theorem joins : Joins Separated where
  nil := nil
  single t hvalue _ := single fun ht => by
    subst ht
    cases hvalue
  append_cons _ _ _ hknown hmark h h' := h.append_cons h' hknown hmark

/-- What is behind the first of some separated tokens is separated. -/
theorem tail {t : Token} {ts : List Token} (h : Separated (t :: ts)) : Separated ts :=
  ⟨fun t' ht' => h.known t' (List.mem_cons_of_mem t ht'), h.chain.tail⟩

/-- The end of some separated tokens is separated. -/
theorem right {ts ts' : List Token} (h : Separated (ts ++ ts')) : Separated ts' :=
  ⟨fun t ht => h.known t (List.mem_append_right ts ht), h.chain.right_of_append⟩

/-- What stands behind a value is a punctuation mark. -/
theorem behind_value {t : Token} {ts : List Token} (h : Separated (t :: ts))
    (ht : t.isValue = true) : ∀ t' ∈ ts.head?, t' ≠ .unknown ∧ t'.isValue = false := by
  intro t' ht'
  refine ⟨h.known t' (List.mem_cons_of_mem t (List.mem_of_mem_head? ht')), ?_⟩
  simpa [ht] using (List.isChain_cons.1 h.chain).1 t' ht'

end Separated

/-- The tokens of a declaration are separated. -/
theorem Declaration.separated_of_written : Writes Separated (Written dialect) := by
  intro ts d hd
  rcases Separated.joins.declaration hd with ⟨-, hts⟩ | ⟨body, -, rfl, hbody⟩
  · exact hts
  · exact (Separated.single (by simp)).append_cons hbody (by simp) rfl

/-- Every root signature is written with a punctuation mark between any two values. -/
theorem Signature.separated_of_written {ts : List Token} {s : SignatureV1_1}
    (h : Signature.Written dialect ts s) : Separated ts := by
  obtain ⟨ds, hds, -, -⟩ := h
  cases hds with
  | empty => exact .nil
  | list hds => exact Separated.joins.commaList Declaration.separated_of_written ts ds hds
  | trailingComma hds =>
      exact (Separated.joins.commaList Declaration.separated_of_written _ ds hds).append_cons .nil
        (by simp) rfl

/-! ## The words `RootFlags` -/

/-- Tokens without the word for the flags can be joined by marks. -/
theorem joins_rootFlags_notMem : Joins (Token.rootFlags ∉ ·) where
  nil := List.not_mem_nil
  single t _ ht hmem := ht (List.mem_singleton.1 hmem).symm
  append_cons ts mark ts' _ hmark h h' hmem := by
    rcases List.mem_append.1 hmem with hmem | hmem
    · exact h hmem
    · rcases List.mem_cons.1 hmem with rfl | hmem
      · cases hmark
      · exact h' hmem

/-- A declaration has the words once if it declares the flags of the whole signature. -/
theorem Declaration.count_rootFlags {ts : List Token} {d : Declaration}
    (h : Written dialect ts d) : ts.count .rootFlags = d.isRootFlags.toNat := by
  rcases joins_rootFlags_notMem.declaration h with ⟨hd, hts⟩ | ⟨body, hd, rfl, hbody⟩
  · rw [hd, List.count_eq_zero.2 hts, Bool.toNat_false]
  · rw [hd, List.count_cons_self, List.count_cons_of_ne (by simp), List.count_eq_zero.2 hbody,
      Bool.toNat_true]

/-- The word for the flags is there as often as flags are declared. -/
theorem Grammar.Declarations.count_rootFlags {ts : List Token} {ds : List Declaration}
    (h : Declarations dialect ts ds) :
    ts.count .rootFlags = (ds.filter Declaration.isRootFlags).length := by
  have hlist {ts : List Token} {ds : List Declaration}
      (h : CommaList (Declaration.Written dialect) ts ds) :
      ts.count .rootFlags = (ds.filter Declaration.isRootFlags).length := by
    induction h with
    | @single ts d hd =>
        rw [Declaration.count_rootFlags hd]
        cases hflags : d.isRootFlags <;> simp [hflags]
    | @cons ts ts' d ds hd _ ih =>
        rw [List.count_append, List.count_cons_of_ne (by simp), ih,
          Declaration.count_rootFlags hd]
        cases hflags : d.isRootFlags <;> simp [hflags, Nat.add_comm]
  cases h with
  | empty => rfl
  | list h => exact hlist h
  | trailingComma h => rw [List.count_append, hlist h, List.count_singleton]; rfl

end RootSignature
