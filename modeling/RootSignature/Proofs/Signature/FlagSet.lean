import RootSignature.Signature.Flags

/-!
# Sets of known flags

The set of a list of flags depends on the members of the list only (`FlagSet.ofList_eq_of_mem_iff`).

A set is known if flags own all of its bits. The sets that are made of flags are known
(`FlagSet.isKnown_ofList`), and if each flag owns one bit, as all flags of a signature do, a known
set is made of the flags that it has (`FlagSet.ofList_toList`).
-/

namespace RootSignature

/-! ## Bits -/

/-- Masks go through unions of bits. -/
theorem and_or_right (a b c : UInt32) : (a ||| b) &&& c = (a &&& c) ||| (b &&& c) :=
  UInt32.toBitVec_inj.1 BitVec.and_or_distrib_right

/-- A part of some bits adds nothing to them. -/
theorem or_and_self (a b : UInt32) : a ||| (b &&& a) = a := by
  rw [← UInt32.toBitVec_inj]
  ext i hi
  cases ha : a.toBitVec[i] <;> simp [ha]

namespace FlagSet

variable {F : Type} [Flag F] {f : F} {s t : FlagSet F}

/-! ## Sets of lists -/

/-- Flags add their own bits, whatever set they are added to. -/
theorem bits_foldl_insert (fs : List F) (s : FlagSet F) :
    (fs.foldl insert s).bits = s.bits ||| (fs.foldl insert ∅).bits := by
  induction fs generalizing s with
  | nil => simp
  | cons f fs ih =>
      rw [List.foldl_cons, List.foldl_cons, ih, ih (insert ∅ f)]
      simp [UInt32.or_assoc]

/-- The set of a list is put together flag by flag. -/
theorem ofList_cons (f : F) (fs : List F) : ofList (f :: fs) = {f} ∪ ofList fs := by
  ext1
  rw [ofList, List.foldl_cons, bits_foldl_insert, bits_union]
  simp [ofList]

theorem ofList_singleton (f : F) : ofList [f] = {f} := by
  ext1
  simp [ofList]

section
omit [Flag F]

theorem union_comm (s t : FlagSet F) : s ∪ t = t ∪ s := by
  ext1
  exact UInt32.or_comm s.bits t.bits

theorem union_assoc (s t u : FlagSet F) : s ∪ t ∪ u = s ∪ (t ∪ u) := by
  ext1
  exact UInt32.or_assoc ..

theorem empty_union (s : FlagSet F) : ∅ ∪ s = s := by
  ext1
  simp

theorem union_empty (s : FlagSet F) : s ∪ ∅ = s := by
  ext1
  simp

end

/-- A union keeps the flags of its first set. -/
theorem mem_union_left (t : FlagSet F) (h : f ∈ s) : f ∈ s ∪ t := by
  rw [mem_iff] at h ⊢
  rw [bits_union, and_or_right, h, or_and_self]

theorem mem_union_right (s : FlagSet F) (h : f ∈ t) : f ∈ s ∪ t :=
  union_comm t s ▸ mem_union_left s h

theorem mem_singleton (f : F) : f ∈ ({f} : FlagSet F) :=
  UInt32.and_self

/-- The set of a list of flags has the flags of the list. -/
theorem mem_ofList_of_mem {fs : List F} (h : f ∈ fs) : f ∈ ofList fs := by
  induction fs with
  | nil => cases h
  | cons g fs ih =>
      rw [ofList_cons]
      rcases List.mem_cons.1 h with rfl | h
      · exact mem_union_left _ (mem_singleton f)
      · exact mem_union_right _ (ih h)

/-- A flag of a set adds nothing to it. -/
theorem singleton_union_of_mem (h : f ∈ s) : {f} ∪ s = s := by
  ext1
  have hbits : s.bits ||| (Flag.bit f &&& s.bits) = s.bits := or_and_self _ _
  rwa [UInt32.and_comm, mem_iff.1 h, UInt32.or_comm] at hbits

/-- The set of a list depends on the members of the list only, not on their order and not on how
often they are there. -/
theorem ofList_eq_of_mem_iff {fs fs' : List F} (h : ∀ f, f ∈ fs ↔ f ∈ fs') :
    ofList fs = ofList fs' := by
  have hunion {fs fs' : List F} (h : ∀ f ∈ fs, f ∈ fs') : ofList fs ∪ ofList fs' = ofList fs' := by
    induction fs with
    | nil => exact empty_union _
    | cons f fs ih =>
        obtain ⟨hf, hfs⟩ := List.forall_mem_cons.1 h
        rw [ofList_cons, union_assoc, ih hfs, singleton_union_of_mem (mem_ofList_of_mem hf)]
  rw [← hunion fun f hf => (h f).1 hf, union_comm, hunion fun f hf => (h f).2 hf]

/-! ## Known sets -/

/-- A set is known if the known bits are all that it has. -/
theorem isKnown_iff : s.isKnown = true ↔ s.bits &&& (full : FlagSet F).bits = s.bits := by
  rw [isKnown, decide_eq_true_iff, FlagSet.ext_iff]
  rfl

theorem isKnown_empty : (∅ : FlagSet F).isKnown = true :=
  isKnown_iff.2 UInt32.zero_and

/-- A union of known sets is known. -/
theorem isKnown_union (hs : s.isKnown = true) (ht : t.isKnown = true) :
    (s ∪ t).isKnown = true := by
  rw [isKnown_iff] at hs ht ⊢
  rw [bits_union, and_or_right, hs, ht]

/-- A flag of the family is known. -/
theorem isKnown_singleton (h : f ∈ (Flag.all : List F)) : ({f} : FlagSet F).isKnown = true := by
  have hfull : f ∈ (full : FlagSet F) := mem_ofList_of_mem h
  rw [isKnown_iff, bits_singleton, UInt32.and_comm]
  exact hfull

/-- What is made of flags is known. -/
theorem isKnown_ofList {fs : List F} (h : ∀ f ∈ fs, f ∈ (Flag.all : List F)) :
    (ofList fs).isKnown = true := by
  induction fs with
  | nil => exact isKnown_empty
  | cons f fs ih =>
      obtain ⟨hf, hfs⟩ := List.forall_mem_cons.1 h
      rw [ofList_cons]
      exact isKnown_union (isKnown_singleton hf) (ih hfs)

/-! ## Flags that own one bit -/

/-- A set has a flag that owns one bit, or nothing of it. -/
theorem and_bit_eq (hbit : ∃ i < 32, (Flag.bit f).toBitVec = BitVec.twoPow 32 i) (h : f ∉ s) :
    s.bits &&& Flag.bit f = 0 := by
  obtain ⟨i, -, hi⟩ := hbit
  rw [mem_iff] at h
  rw [← UInt32.toBitVec_inj, UInt32.toBitVec_and, hi, BitVec.and_twoPow] at h ⊢
  split at h
  · exact absurd rfl h
  · next hfalse => rw [if_neg hfalse, UInt32.toBitVec_zero]

/-- The flags of a list that a set has make the part of the set that is within the list. -/
theorem bits_ofList_filter (hbit : ∀ f : F, ∃ i < 32, (Flag.bit f).toBitVec = BitVec.twoPow 32 i)
    (s : FlagSet F) (fs : List F) :
    (ofList (fs.filter (· ∈ s))).bits = s.bits &&& (ofList fs).bits := by
  induction fs with
  | nil => exact UInt32.and_zero.symm
  | cons f fs ih =>
      have hsplit : s.bits &&& (ofList (f :: fs)).bits =
          (s.bits &&& Flag.bit f) ||| (s.bits &&& (ofList fs).bits) := by
        rw [ofList_cons, bits_union, UInt32.and_comm, and_or_right, UInt32.and_comm,
          UInt32.and_comm (ofList fs).bits]
        rfl
      rw [hsplit, ← ih]
      by_cases hf : f ∈ s
      · rw [List.filter_cons_of_pos (by simpa using hf), ofList_cons, bits_union, mem_iff.1 hf]
        rfl
      · rw [List.filter_cons_of_neg (by simpa using hf), and_bit_eq (hbit f) hf, UInt32.zero_or]

/-- A known set is made of the flags that it has, if each flag owns one bit. -/
theorem ofList_toList (hbit : ∀ f : F, ∃ i < 32, (Flag.bit f).toBitVec = BitVec.twoPow 32 i)
    (h : s.isKnown = true) : ofList s.toList = s := by
  ext1
  rw [toList, bits_ofList_filter hbit]
  exact isKnown_iff.1 h

end FlagSet

/-- Each flag of a signature owns one bit. -/
theorem RootFlag.exists_bit_eq (f : RootFlag) :
    ∃ i < 32, (Flag.bit f).toBitVec = BitVec.twoPow 32 i := by
  cases f <;> decide

theorem RangeFlag.exists_bit_eq (f : RangeFlag) :
    ∃ i < 32, (Flag.bit f).toBitVec = BitVec.twoPow 32 i := by
  cases f <;> decide

theorem DescriptorFlag.exists_bit_eq (f : DescriptorFlag) :
    ∃ i < 32, (Flag.bit f).toBitVec = BitVec.twoPow 32 i :=
  RangeFlag.exists_bit_eq f.toRangeFlag

end RootSignature
