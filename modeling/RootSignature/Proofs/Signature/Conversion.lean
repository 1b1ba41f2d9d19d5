import Mathlib.Data.List.Forall2
import RootSignature.Signature.Conversion

/-!
# Conversions one after another

A signature that is converted to one version after the other keeps all but the flags of its
descriptors and ranges (`VersionedSignature.eraseFlags_convertAll`), and two signatures agree in all
but these flags just when they are the same without them (`Signature.eraseFlags_eq_iff`).

Upgrading writes down flags wherever there is a place for them, and downgrading refuses the first
place that carries any (`Signature.firstFlagged?_eq_some_iff`). So most signatures do not come back
from an upgrade: only those come back that bind no descriptor and no range
(`conversions_change_flags_only`).
-/

namespace RootSignature

variable {D R D' R' : Type}

/-! ## Signatures up to flags -/

/-- The descriptors differ in their flags at most. -/
@[mk_iff] structure RootDescriptor.Alike (d : RootDescriptor D) (d' : RootDescriptor D') :
    Prop where
  type : d.type = d'.type
  register : d.register = d'.register
  space : d.space = d'.space

/-- The ranges differ in their flags at most. -/
@[mk_iff] structure DescriptorRange.Alike (r : DescriptorRange R) (r' : DescriptorRange R') :
    Prop where
  type : r.type = r'.type
  register : r.register = r'.register
  count : r.count = r'.count
  space : r.space = r'.space
  offset : r.offset = r'.offset

/-- The bindings are of one kind, and differ in flags at most. -/
def Binding.Alike : Binding D R → Binding D' R' → Prop
  | .constants c, .constants c' => c = c'
  | .descriptor d, .descriptor d' => d.Alike d'
  | .table ranges, .table ranges' => List.Forall₂ DescriptorRange.Alike ranges ranges'
  | _, _ => False

/-- The parameters are seen by the same stages, and their bindings differ in flags at most. -/
@[mk_iff] structure RootParameter.Alike (p : RootParameter D R) (p' : RootParameter D' R') :
    Prop where
  binding : p.binding.Alike p'.binding
  visibility : p.visibility = p'.visibility

/-- The signatures differ in the flags of descriptors and of ranges at most. -/
@[mk_iff] structure Signature.Alike (s : Signature D R) (s' : Signature D' R') : Prop where
  flags : s.flags = s'.flags
  parameters : List.Forall₂ RootParameter.Alike s.parameters s'.parameters
  staticSamplers : s.staticSamplers = s'.staticSamplers

/-- Lists have the same images just when their members do, one by one. -/
theorem map_eq_map_iff_forall₂ {α β γ : Type} {f : α → γ} {g : β → γ} {as : List α}
    {bs : List β} : as.map f = bs.map g ↔ List.Forall₂ (fun a b => f a = g b) as bs := by
  rw [← List.forall₂_eq_eq_eq, List.forall₂_map_left_iff, List.forall₂_map_right_iff]

/-- Descriptors become the same with the same flags just when they differ in flags at most. -/
theorem RootDescriptor.withFlags_eq_iff {F : Type} {flags : F} {d : RootDescriptor D}
    {d' : RootDescriptor D'} : d.withFlags flags = d'.withFlags flags ↔ d.Alike d' := by
  rw [alike_iff]
  simp [withFlags]

/-- Ranges become the same with the same flags just when they differ in flags at most. -/
theorem DescriptorRange.withFlags_eq_iff {F : Type} {flags : F} {r : DescriptorRange R}
    {r' : DescriptorRange R'} : r.withFlags flags = r'.withFlags flags ↔ r.Alike r' := by
  rw [alike_iff]
  simp [withFlags]

/-- Bindings are the same without flags just when they differ in flags at most. -/
theorem Binding.eraseFlags_eq_iff {b : Binding D R} {b' : Binding D' R'} :
    b.mapFlags (fun _ => ()) (fun _ => ()) = b'.mapFlags (fun _ => ()) (fun _ => ()) ↔
      b.Alike b' := by
  cases b <;> cases b' <;>
    simp [mapFlags, Alike, RootDescriptor.withFlags_eq_iff, map_eq_map_iff_forall₂,
      DescriptorRange.withFlags_eq_iff]

/-- Signatures are the same without flags just when they differ in flags at most. -/
theorem Signature.eraseFlags_eq_iff {s : Signature D R} {s' : Signature D' R'} :
    s.eraseFlags = s'.eraseFlags ↔ s.Alike s' := by
  rw [alike_iff, eraseFlags, eraseFlags, mapFlags, mapFlags, Signature.mk.injEq,
    map_eq_map_iff_forall₂]
  simp only [RootParameter.mk.injEq, Binding.eraseFlags_eq_iff, ← RootParameter.alike_iff]

/-! ## Runs of conversions -/

/-- Flags that are changed and erased might as well be erased. -/
theorem Binding.eraseFlags_mapFlags (descriptor : RootDescriptor D → D')
    (range : DescriptorRange R → R') (b : Binding D R) :
    (b.mapFlags descriptor range).mapFlags (fun _ => ()) (fun _ => ()) =
      b.mapFlags (fun _ => ()) (fun _ => ()) := by
  cases b with
  | constants c => rfl
  | descriptor d => rfl
  | table ranges =>
      refine congrArg Binding.table ?_
      rw [List.map_map]
      rfl

/-- Other flags do not count for what the signature is without flags. -/
theorem Signature.eraseFlags_mapFlags (descriptor : RootDescriptor D → D')
    (range : DescriptorRange R → R') (s : Signature D R) :
    (s.mapFlags descriptor range).eraseFlags = s.eraseFlags := by
  ext1
  · rfl
  · show List.map _ (List.map _ _) = List.map _ _
    rw [List.map_map]
    refine List.map_congr_left fun p _ => ?_
    have hbinding := p.binding.eraseFlags_mapFlags descriptor range
    exact congrArg (RootParameter.mk · p.visibility) hbinding
  · rfl

/-- A signature of version 1.0 has no flags that it could lose. -/
theorem Signature.eraseFlags_v1_0 (s : SignatureV1_0) : s.eraseFlags = s := by
  have hbinding (b : Binding Unit Unit) : b.mapFlags (fun _ => ()) (fun _ => ()) = b := by
    cases b with
    | constants c => rfl
    | descriptor d => rfl
    | table ranges => exact congrArg Binding.table ranges.map_id
  ext1
  · rfl
  · refine (List.map_congr_left fun p _ => ?_).trans s.parameters.map_id
    exact congrArg (RootParameter.mk · p.visibility) (hbinding p.binding)
  · rfl

namespace VersionedSignature

/-- The signature without the flags of descriptors and ranges, which only version 1.1 has. -/
def eraseFlags : VersionedSignature → SignatureV1_0
  | v1_0 s => s
  | v1_1 s => s.eraseFlags

/-- The signature after an attempt to convert it. If it can not be converted, it stays as it is. -/
def convertOrKeep (d : VersionedSignature) (version : Version) : VersionedSignature :=
  match d.convert version with
  | .ok d' => d'
  | .error _ => d

/-- The signature after attempts to convert it to one version after the other. -/
def convertAll (d : VersionedSignature) (versions : List Version) : VersionedSignature :=
  versions.foldl convertOrKeep d

/-- A downgrade succeeds if no flag is found. -/
theorem convert_v1_1_v1_0 (s : SignatureV1_1) :
    (v1_1 s).convert .v1_0 =
      match s.firstFlagged? with
      | some error => .error error
      | none => .ok (v1_0 s.eraseFlags) := by
  rw [convert, Signature.downgrade]
  cases s.firstFlagged? <;> rfl

/-- A conversion keeps what is left without flags. -/
theorem eraseFlags_of_convert {d d' : VersionedSignature} {version : Version}
    (h : d.convert version = .ok d') : d'.eraseFlags = d.eraseFlags := by
  cases d with
  | v1_0 s =>
      cases version with
      | v1_0 =>
          cases h
          rfl
      | v1_1 =>
          cases h
          exact (s.eraseFlags_mapFlags _ _).trans s.eraseFlags_v1_0
  | v1_1 s =>
      cases version with
      | v1_0 =>
          rw [convert_v1_1_v1_0] at h
          split at h
          · cases h
          · cases h
            rfl
      | v1_1 =>
          cases h
          rfl

/-- A conversion changes nothing but flags, also where it is refused. -/
theorem eraseFlags_convertOrKeep (d : VersionedSignature) (version : Version) :
    (d.convertOrKeep version).eraseFlags = d.eraseFlags := by
  unfold convertOrKeep
  split
  · next d' h => exact eraseFlags_of_convert h
  · rfl

/-- Attempts to convert a signature keep what is left of it without flags. -/
theorem eraseFlags_convertAll (d : VersionedSignature) (versions : List Version) :
    (d.convertAll versions).eraseFlags = d.eraseFlags := by
  induction versions generalizing d with
  | nil => rfl
  | cons version versions ih => exact (ih _).trans (d.eraseFlags_convertOrKeep version)

/-- A signature has a description in its own version: itself. -/
theorem convert_version (d : VersionedSignature) : d.convert d.version = .ok d := by
  cases d <;> rfl

end VersionedSignature

/-! ## The first flag -/

/-- No flag is set in the binding. -/
def Binding.Flagless : Binding (FlagSet DescriptorFlag) (FlagSet RangeFlag) → Prop
  | .constants _ => True
  | .descriptor d => d.flags = ∅
  | .table ranges => ∀ r ∈ ranges, r.flags = ∅

/-- No flag of a binding is found first just when it has none. -/
theorem Binding.firstFlagged?_eq_none_iff
    {b : Binding (FlagSet DescriptorFlag) (FlagSet RangeFlag)} {i : Nat} :
    b.firstFlagged? i = none ↔ b.Flagless := by
  cases b with
  | constants c => simp [firstFlagged?, Flagless]
  | descriptor d => simp [firstFlagged?, Flagless, FlagSet.isEmpty_iff]
  | table ranges => simp [firstFlagged?, Flagless, FlagSet.isEmpty_iff]

/-- No flag of a signature is found first just when no parameter has one. -/
theorem Signature.firstFlagged?_eq_none_iff {s : SignatureV1_1} :
    s.firstFlagged? = none ↔ ∀ p ∈ s.parameters, p.binding.Flagless := by
  rw [firstFlagged?, List.findSome?_eq_none_iff]
  refine ⟨fun h p hp => ?_, ?_⟩
  · obtain ⟨i, hi⟩ := List.getElem?_of_mem hp
    exact Binding.firstFlagged?_eq_none_iff.1 (h (p, i) (List.mem_zipIdx_iff_getElem?.2 hi))
  · rintro h ⟨p, i⟩ hp
    exact Binding.firstFlagged?_eq_none_iff.2 (h p (List.fst_mem_of_mem_zipIdx hp))

/-- A signature is refused for the first of its parameters in which a flag is set. -/
theorem Signature.firstFlagged?_eq_some_iff {s : SignatureV1_1} {error : ConversionError} :
    s.firstFlagged? = some error ↔
      ∃ front p back, s.parameters = front ++ p :: back ∧ (∀ q ∈ front, q.binding.Flagless) ∧
        p.binding.firstFlagged? front.length = some error := by
  -- By induction on the parameters, which are numbered from any number on.
  have hfrom (ps : List (RootParameter (FlagSet DescriptorFlag) (FlagSet RangeFlag))) (n : Nat) :
      (ps.zipIdx n).findSome? (fun x => x.1.binding.firstFlagged? x.2) = some error ↔
        ∃ front p back, ps = front ++ p :: back ∧ (∀ q ∈ front, q.binding.Flagless) ∧
          p.binding.firstFlagged? (n + front.length) = some error := by
    induction ps generalizing n with
    | nil => simp
    | cons p ps ih =>
        rw [List.zipIdx_cons, List.findSome?_cons]
        dsimp only
        cases hp : p.binding.firstFlagged? n with
        | some found =>
            refine ⟨fun h => ⟨[], p, ps, rfl, by simp, hp.trans h⟩, ?_⟩
            rintro ⟨front, q, back, hps, hfront, hq⟩
            cases front with
            | nil =>
                obtain ⟨rfl, rfl⟩ := List.cons_eq_cons.1 hps
                exact hp.symm.trans hq
            | cons q' front =>
                obtain ⟨rfl, rfl⟩ := List.cons_eq_cons.1 hps
                have hflagless := hfront p (List.mem_cons_self ..)
                rw [Binding.firstFlagged?_eq_none_iff.2 hflagless] at hp
                cases hp
        | none =>
            dsimp only
            rw [ih]
            refine ⟨?_, ?_⟩
            · rintro ⟨front, q, back, rfl, hfront, hq⟩
              refine ⟨p :: front, q, back, rfl, ?_, ?_⟩
              · exact List.forall_mem_cons.2 ⟨Binding.firstFlagged?_eq_none_iff.1 hp, hfront⟩
              · rwa [List.length_cons, Nat.add_comm front.length, ← Nat.add_assoc]
            · rintro ⟨front, q, back, hps, hfront, hq⟩
              cases front with
              | nil =>
                  obtain ⟨rfl, rfl⟩ := List.cons_eq_cons.1 hps
                  cases hp.symm.trans hq
              | cons q' front =>
                  obtain ⟨rfl, rfl⟩ := List.cons_eq_cons.1 hps
                  refine ⟨front, q, back, rfl, (List.forall_mem_cons.1 hfront).2, ?_⟩
                  rwa [List.length_cons, Nat.add_comm front.length, ← Nat.add_assoc] at hq
  have h := hfrom s.parameters 0
  simp only [Nat.zero_add] at h
  exact h

/-! ## Upgrades -/

/-- The binding has a place for flags: it binds a descriptor, or a table with a range. -/
def Binding.TakesFlags : Binding D R → Prop
  | .constants _ => False
  | .descriptor _ => True
  | .table ranges => ranges ≠ []

/-- The binding of version 1.1 that binds in the same way. -/
abbrev Binding.upgrade : Binding Unit Unit → Binding (FlagSet DescriptorFlag) (FlagSet RangeFlag) :=
  mapFlags (fun _ => {.dataVolatile}) (fun r => r.type.volatileFlags)

/-- All ranges are volatile in some way in version 1.0. -/
theorem RangeType.volatileFlags_ne_empty (type : RangeType) : type.volatileFlags ≠ ∅ := by
  cases type <;> decide

/-- An upgrade leaves no place without flags. -/
theorem Binding.flagless_upgrade_iff {b : Binding Unit Unit} :
    b.upgrade.Flagless ↔ ¬ b.TakesFlags := by
  cases b with
  | constants c => simp [upgrade, mapFlags, Flagless, TakesFlags]
  | descriptor d =>
      have hvolatile : ({.dataVolatile} : FlagSet DescriptorFlag) ≠ ∅ := by decide
      simp [upgrade, mapFlags, RootDescriptor.withFlags, Flagless, TakesFlags, hvolatile]
  | table ranges =>
      simp [upgrade, mapFlags, DescriptorRange.withFlags, Flagless, TakesFlags,
        RangeType.volatileFlags_ne_empty, List.eq_nil_iff_forall_not_mem]

/-- The first flag of an upgraded binding is that of its descriptor or of its first range. -/
theorem Binding.firstFlagged?_upgrade {b : Binding Unit Unit} {i : Nat} {error : ConversionError}
    (h : b.upgrade.firstFlagged? i = some error) :
    (∃ d, b = .descriptor d ∧ error = .descriptorFlags i) ∨
      ∃ r ranges, b = .table (r :: ranges) ∧ error = .rangeFlags i 0 := by
  cases b with
  | constants c => cases h
  | descriptor d =>
      cases h
      exact .inl ⟨d, rfl, rfl⟩
  | table ranges =>
      cases ranges with
      | nil => cases h
      | cons r ranges =>
          have hvolatile : r.type.volatileFlags.isEmpty = false :=
            Bool.eq_false_iff.2 (mt FlagSet.isEmpty_iff.1 r.type.volatileFlags_ne_empty)
          refine .inr ⟨r, ranges, rfl, ?_⟩
          simpa [upgrade, mapFlags, firstFlagged?, DescriptorRange.withFlags, List.findIdx?_cons,
            hvolatile] using h.symm

namespace Signature

/-- An upgrade is undone by erasing its flags. -/
theorem eraseFlags_upgrade (s : SignatureV1_0) : s.upgrade.eraseFlags = s :=
  (s.eraseFlags_mapFlags _ _).trans s.eraseFlags_v1_0

/-- All flags that an upgrade writes down say that something is volatile. -/
theorem flags_upgrade (s : SignatureV1_0) :
    ∀ p ∈ s.upgrade.parameters,
      (∀ d, p.binding = .descriptor d → d.flags = {.dataVolatile}) ∧
      ∀ ranges, p.binding = .table ranges → ∀ r ∈ ranges, r.flags =
        if r.type = .sampler then {.descriptorsVolatile}
        else {.descriptorsVolatile} ∪ {.dataVolatile} := by
  intro p hp
  obtain ⟨q, -, rfl⟩ := List.mem_map.1 hp
  dsimp only
  cases q.binding with
  | constants c => exact ⟨fun d hd => (by cases hd), fun ranges hranges => (by cases hranges)⟩
  | descriptor d =>
      refine ⟨fun d' hd => ?_, fun ranges hranges => (by cases hranges)⟩
      cases hd
      rfl
  | table ranges =>
      refine ⟨fun d hd => (by cases hd), fun ranges' hranges r hr => ?_⟩
      cases hranges
      obtain ⟨r', -, rfl⟩ := List.mem_map.1 hr
      show r'.type.volatileFlags = if r'.type = .sampler then _ else _
      cases r'.type <;> rfl

/-- An upgraded signature comes back from version 1.0 just when nothing in it has a place for
flags. -/
theorem convert_upgrade_eq_ok_iff {s : SignatureV1_0} :
    (VersionedSignature.v1_1 s.upgrade).convert .v1_0 = .ok (.v1_0 s) ↔
      ∀ p ∈ s.parameters, ¬ p.binding.TakesFlags := by
  have hnone : s.upgrade.firstFlagged? = none ↔ ∀ p ∈ s.parameters, ¬ p.binding.TakesFlags := by
    rw [firstFlagged?_eq_none_iff]
    show (∀ p ∈ s.parameters.map _, _) ↔ _
    simp only [List.forall_mem_map, Binding.flagless_upgrade_iff]
  rw [← hnone, VersionedSignature.convert_v1_1_v1_0, eraseFlags_upgrade]
  cases s.upgrade.firstFlagged? <;> simp

/-- An upgraded signature that does not come back is refused for the first of its parameters that
has a place for flags. -/
theorem exists_of_convert_upgrade_ne_ok {s : SignatureV1_0}
    (h : (VersionedSignature.v1_1 s.upgrade).convert .v1_0 ≠ .ok (.v1_0 s)) :
    ∃ front p back, s.parameters = front ++ p :: back ∧
      (∀ q ∈ front, ¬ q.binding.TakesFlags) ∧
      ((∃ d, p.binding = .descriptor d ∧ (VersionedSignature.v1_1 s.upgrade).convert .v1_0 =
          .error (.descriptorFlags front.length)) ∨
        ∃ r ranges, p.binding = .table (r :: ranges) ∧
          (VersionedSignature.v1_1 s.upgrade).convert .v1_0 =
            .error (.rangeFlags front.length 0)) := by
  rw [VersionedSignature.convert_v1_1_v1_0, eraseFlags_upgrade] at h ⊢
  cases hflagged : s.upgrade.firstFlagged? with
  | none =>
      rw [hflagged] at h
      exact absurd rfl h
  | some error =>
      obtain ⟨front', p', back', hsplit, hfront, hp⟩ := firstFlagged?_eq_some_iff.1 hflagged
      obtain ⟨front, rest, hrest, rfl, hps⟩ := List.map_eq_append_iff.1 hsplit
      obtain ⟨p, back, rfl, rfl, rfl⟩ := List.map_eq_cons_iff.1 hps
      rw [List.length_map] at hp
      refine ⟨front, p, back, hrest, fun q hq => ?_, ?_⟩
      · exact Binding.flagless_upgrade_iff.1 (hfront _ (List.mem_map_of_mem hq))
      · rcases Binding.firstFlagged?_upgrade hp with ⟨d, hd, rfl⟩ | ⟨r, ranges, hranges, rfl⟩
        · exact .inl ⟨d, hd, rfl⟩
        · exact .inr ⟨r, ranges, hranges, rfl⟩

end Signature

/-- Attempts to convert a signature change nothing but the flags of descriptors and ranges. A
conversion to the version that the signature has already gives the same signature. One from version
1.0 to version 1.1 succeeds, and makes all data and all descriptors volatile; converted back, the
signature is the one that it was just when it binds no descriptor and no range, and otherwise it is
refused for the first parameter that binds any. -/
theorem conversions_change_flags_only :
    (∀ (d : VersionedSignature) (versions : List Version),
      (d.convertAll versions).eraseFlags = d.eraseFlags) ∧
    (∀ (s : SignatureV1_0) (t : SignatureV1_1),
      (VersionedSignature.v1_1 t).eraseFlags = s ↔ t.Alike s) ∧
    (∀ d : VersionedSignature, d.convert d.version = .ok d) ∧
    ∀ s : SignatureV1_0, ∃ t : SignatureV1_1,
      (VersionedSignature.v1_0 s).convert .v1_1 = .ok (.v1_1 t) ∧
      (∀ p ∈ t.parameters,
        (∀ d, p.binding = .descriptor d → d.flags = {.dataVolatile}) ∧
        ∀ ranges, p.binding = .table ranges → ∀ r ∈ ranges, r.flags =
          if r.type = .sampler then {.descriptorsVolatile}
          else {.descriptorsVolatile} ∪ {.dataVolatile}) ∧
      ((VersionedSignature.v1_1 t).convert .v1_0 = .ok (.v1_0 s) ↔
        ∀ p ∈ s.parameters, ¬ p.binding.TakesFlags) ∧
      ((VersionedSignature.v1_1 t).convert .v1_0 ≠ .ok (.v1_0 s) →
        ∃ front p back, s.parameters = front ++ p :: back ∧
          (∀ q ∈ front, ¬ q.binding.TakesFlags) ∧
          ((∃ d, p.binding = .descriptor d ∧ (VersionedSignature.v1_1 t).convert .v1_0 =
              .error (.descriptorFlags front.length)) ∨
            ∃ r ranges, p.binding = .table (r :: ranges) ∧
              (VersionedSignature.v1_1 t).convert .v1_0 =
                .error (.rangeFlags front.length 0))) := by
  refine ⟨fun d versions => d.eraseFlags_convertAll versions, fun s t => ?_,
    fun d => d.convert_version, fun s => ⟨s.upgrade, rfl, s.flags_upgrade, ?_, ?_⟩⟩
  · rw [← Signature.eraseFlags_eq_iff, s.eraseFlags_v1_0]
    rfl
  · exact Signature.convert_upgrade_eq_ok_iff
  · exact Signature.exists_of_convert_upgrade_ne_ok

end RootSignature
