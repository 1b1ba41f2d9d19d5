import Mathlib.Data.Prod.Lex
import RootSignature.Proofs.Signature.Conversion

/-!
# The first place that refuses a downgrade

A signature is described in version 1.0 just when no descriptor and no range of it has any bit set
in its flags. Otherwise the error names a place with flags (`ConversionError.Applies`), and of all
such places the first one, by the index of the parameter and then by that of the range
(`ConversionError.place`). An error says nothing but its place, so only one error can be given
(`VersionedSignature.convert_v1_0_blames_first_flags`).
-/

namespace RootSignature

variable {s : SignatureV1_1} {e e' : ConversionError}

namespace ConversionError

/-- The place that the error names carries flags, known or unknown. -/
def Applies (s : SignatureV1_1) : ConversionError → Prop
  | descriptorFlags i => ∃ d visibility,
      s.parameters[i]? = some ⟨.descriptor d, visibility⟩ ∧ d.flags.bits ≠ 0
  | rangeFlags i j => ∃ ranges visibility r,
      s.parameters[i]? = some ⟨.table ranges, visibility⟩ ∧ ranges[j]? = some r ∧
        r.flags.bits ≠ 0

/-- The place that the error names: the parameter, and the range in its table. A descriptor is
alone in its parameter. -/
def place : ConversionError → ℕ ×ₗ ℕ
  | descriptorFlags i => toLex (i, 0)
  | rangeFlags i j => toLex (i, j)

/-- The parameter that the error names. -/
def parameter (e : ConversionError) : ℕ :=
  (ofLex e.place).1

/-- Two errors about one place that both apply are the same: what the parameter binds decides what
the error is about. -/
theorem Applies.eq_of_place (h : e.Applies s) (h' : e'.Applies s) (hplace : e.place = e'.place) :
    e = e' := by
  cases e with
  | descriptorFlags i =>
      cases e' with
      | descriptorFlags i' =>
          obtain ⟨rfl, -⟩ := Prod.ext_iff.1 (toLex_inj.1 hplace)
          rfl
      | rangeFlags i' j' =>
          obtain ⟨d, visibility, hd, -⟩ := h
          obtain ⟨ranges, visibility', r, hranges, -⟩ := h'
          obtain ⟨rfl, -⟩ := Prod.ext_iff.1 (toLex_inj.1 hplace)
          cases hd.symm.trans hranges
  | rangeFlags i j =>
      cases e' with
      | descriptorFlags i' =>
          obtain ⟨ranges, visibility, r, hranges, -⟩ := h
          obtain ⟨d, visibility', hd, -⟩ := h'
          obtain ⟨rfl, -⟩ := Prod.ext_iff.1 (toLex_inj.1 hplace)
          cases hd.symm.trans hranges
      | rangeFlags i' j' =>
          obtain ⟨rfl, rfl⟩ := Prod.ext_iff.1 (toLex_inj.1 hplace)
          rfl

end ConversionError

/-! ## One parameter -/

/-- A set is not empty just when one of its bits is set. -/
theorem FlagSet.isEmpty_eq_false_iff {F : Type} {flags : FlagSet F} :
    flags.isEmpty = false ↔ flags.bits ≠ 0 := by
  simp [isEmpty]

/-- An error that applies names a parameter that is not without flags. -/
theorem ConversionError.Applies.exists_parameter (h : e.Applies s) :
    ∃ p, s.parameters[e.parameter]? = some p ∧ ¬ p.binding.Flagless := by
  cases e with
  | descriptorFlags i =>
      obtain ⟨d, visibility, hp, hbits⟩ := h
      exact ⟨_, hp, fun hempty => hbits (congrArg FlagSet.bits hempty)⟩
  | rangeFlags i j =>
      obtain ⟨ranges, visibility, r, hp, hr, hbits⟩ := h
      refine ⟨_, hp, fun hempty => hbits ?_⟩
      exact congrArg FlagSet.bits (hempty r (List.mem_of_getElem? hr))

/-- The error that a binding is refused for applies to it, and no error about an earlier place in
the same parameter does. -/
theorem Binding.firstFlagged?_spec {p : RootParameter (FlagSet DescriptorFlag) (FlagSet RangeFlag)}
    {i : ℕ} (hp : s.parameters[i]? = some p) (h : p.binding.firstFlagged? i = some e) :
    e.Applies s ∧ e.parameter = i ∧
      ∀ e' : ConversionError, e'.Applies s → e'.parameter = i → e.place ≤ e'.place := by
  obtain ⟨binding, visibility⟩ := p
  cases binding with
  | constants c => cases h
  | descriptor d =>
      simp only [firstFlagged?] at h
      split at h
      · cases h
      · next hempty =>
          cases h
          refine ⟨⟨d, visibility, hp, ?_⟩, rfl, fun e' _ hi => ?_⟩
          · exact FlagSet.isEmpty_eq_false_iff.1 (Bool.eq_false_iff.2 hempty)
          · exact Prod.Lex.le_iff.2 (.inr ⟨hi.symm, Nat.zero_le _⟩)
  | table ranges =>
      obtain ⟨j, hj, rfl⟩ := Option.map_eq_some_iff.1 h
      obtain ⟨hlt, hflagged, hbefore⟩ := List.findIdx?_eq_some_iff_getElem.1 hj
      simp only [Bool.not_eq_true', Bool.not_eq_false] at hflagged hbefore
      refine ⟨⟨ranges, visibility, ranges[j], hp, List.getElem?_eq_getElem hlt, ?_⟩, rfl,
        fun e' happlies hi => ?_⟩
      · exact FlagSet.isEmpty_eq_false_iff.1 hflagged
      · cases e' with
        | descriptorFlags i' =>
            obtain rfl : i' = i := hi
            obtain ⟨d, visibility', hd, -⟩ := happlies
            cases hp.symm.trans hd
        | rangeFlags i' j' =>
            obtain rfl : i' = i := hi
            obtain ⟨ranges', visibility', r, hranges, hr, hbits⟩ := happlies
            cases hp.symm.trans hranges
            obtain ⟨hlt', rfl⟩ := List.getElem?_eq_some_iff.1 hr
            refine Prod.Lex.toLex_le_toLex.2 (.inr ⟨rfl, Nat.le_of_not_lt fun hj' => hbits ?_⟩)
            exact congrArg FlagSet.bits (FlagSet.isEmpty_iff.1 (hbefore j' hj'))

/-! ## All parameters -/

namespace Signature

/-- Nothing is refused just when no error applies. -/
theorem not_applies_of_firstFlagged?_eq_none (h : s.firstFlagged? = none) : ¬ e.Applies s := by
  intro happlies
  obtain ⟨p, hp, hflagged⟩ := happlies.exists_parameter
  exact hflagged (firstFlagged?_eq_none_iff.1 h p (List.mem_of_getElem? hp))

/-- A signature is refused for the first of all places that carry flags. -/
theorem firstFlagged?_spec (h : s.firstFlagged? = some e) :
    e.Applies s ∧ ∀ e' : ConversionError, e'.Applies s → e.place ≤ e'.place := by
  obtain ⟨front, p, back, hsplit, hfront, hp⟩ := firstFlagged?_eq_some_iff.1 h
  have hindex : s.parameters[front.length]? = some p := by
    rw [hsplit, List.getElem?_append_right (Nat.le_refl _), Nat.sub_self, List.getElem?_cons_zero]
  obtain ⟨happlies, hi, hfirst⟩ := Binding.firstFlagged?_spec hindex hp
  refine ⟨happlies, fun e' happlies' => ?_⟩
  -- An earlier parameter has no flags, so the other error is about this parameter or a later one.
  have hle : front.length ≤ e'.parameter := by
    by_contra hlt
    obtain ⟨q, hq, hflagged⟩ := happlies'.exists_parameter
    rw [hsplit, List.getElem?_append_left (Nat.lt_of_not_le hlt)] at hq
    exact hflagged (hfront q (List.mem_of_getElem? hq))
  rcases Nat.eq_or_lt_of_le hle with heq | hlt
  · exact hfirst e' happlies' heq.symm
  · exact (Prod.Lex.lt_iff.2 (.inl (hi.trans_lt hlt))).le

/-- The flag that is found first is the least of all errors that apply. -/
theorem firstFlagged?_eq_some_iff_applies :
    s.firstFlagged? = some e ↔
      e.Applies s ∧ ∀ e' : ConversionError, e'.Applies s → e.place ≤ e'.place := by
  refine ⟨firstFlagged?_spec, fun ⟨happlies, hfirst⟩ => ?_⟩
  cases hfound : s.firstFlagged? with
  | none => exact absurd happlies (not_applies_of_firstFlagged?_eq_none hfound)
  | some found =>
      obtain ⟨happlies', hfirst'⟩ := firstFlagged?_spec hfound
      have hplace := le_antisymm (hfirst' e happlies) (hfirst found happlies')
      exact congrArg some (happlies'.eq_of_place happlies hplace)

/-- Nothing is refused just when all flags are zero. -/
theorem firstFlagged?_eq_none_iff_bits :
    s.firstFlagged? = none ↔ ∀ p ∈ s.parameters,
      (∀ d, p.binding = .descriptor d → d.flags.bits = 0) ∧
      ∀ ranges, p.binding = .table ranges → ∀ r ∈ ranges, r.flags.bits = 0 := by
  rw [firstFlagged?_eq_none_iff]
  refine forall₂_congr fun p _ => ?_
  cases p.binding <;> simp [Binding.Flagless, FlagSet.ext_iff]

end Signature

/-- A signature of version 1.1, whatever its flags are, is described in version 1.0 just when all
flags of its descriptors and ranges are zero, and then by the copy of it in everything else. If
some flags are not zero, it is refused for the first place that has any, by the index of the
parameter and then by that of the range, and the error says whether a descriptor or a range stands
there. -/
theorem VersionedSignature.convert_v1_0_blames_first_flags (s : SignatureV1_1) :
    ((∃ d, (v1_1 s).convert .v1_0 = .ok d) ↔ ∀ p ∈ s.parameters,
      (∀ d, p.binding = .descriptor d → d.flags.bits = 0) ∧
      ∀ ranges, p.binding = .table ranges → ∀ r ∈ ranges, r.flags.bits = 0) ∧
    (∀ d, (v1_1 s).convert .v1_0 = .ok d → ∃ t : SignatureV1_0, d = v1_0 t ∧ s.Alike t) ∧
    ∀ e : ConversionError, (v1_1 s).convert .v1_0 = .error e ↔
      e.Applies s ∧ ∀ e' : ConversionError, e'.Applies s → e.place ≤ e'.place := by
  rw [← Signature.firstFlagged?_eq_none_iff_bits, convert_v1_1_v1_0]
  simp only [← Signature.firstFlagged?_eq_some_iff_applies]
  cases s.firstFlagged? with
  | none =>
      refine ⟨by simp, fun d hd => ?_, by simp⟩
      cases hd
      exact ⟨s.eraseFlags, rfl, Signature.eraseFlags_eq_iff.1 s.eraseFlags.eraseFlags_v1_0.symm⟩
  | some error => exact ⟨by simp, fun d hd => (by cases hd), by simp⟩

end RootSignature
