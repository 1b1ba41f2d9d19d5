/-!
# Sets of flags

A set of flags is a machine word in which every flag owns one bit. Bits that no flag owns are kept
as they are, so a set can hold more than its known flags; `truncate` drops them.
-/

namespace RootSignature

/-- The flags of one family: their order, their bits and their written names. -/
class Flag (F : Type) where
  /-- All flags of the family, in their fixed order. -/
  all : List F
  /-- The bit that a flag owns. -/
  bit : F → UInt32
  /-- The words of a flag's name, in lower case. -/
  words : F → List String

/-- The name of a flag: its words in capitals, joined by underscores. -/
def Flag.name {F : Type} [Flag F] (f : F) : String :=
  ("_".intercalate (Flag.words f)).toUpper

/-- A set of flags, held as the bits of one word. -/
@[ext] structure FlagSet (F : Type) where
  /-- The bits of the set, known and unknown. -/
  bits : UInt32

namespace FlagSet

variable {F : Type}

instance : DecidableEq (FlagSet F) :=
  fun s t => decidable_of_iff (s.bits = t.bits) FlagSet.ext_iff.symm

instance : EmptyCollection (FlagSet F) := ⟨⟨0⟩⟩

instance : Inhabited (FlagSet F) := ⟨∅⟩

instance : Union (FlagSet F) := ⟨fun s t => ⟨s.bits ||| t.bits⟩⟩

/-- No bit is set, known or unknown. -/
def isEmpty (s : FlagSet F) : Bool :=
  s.bits == 0

variable [Flag F]

instance : Singleton F (FlagSet F) := ⟨fun f => ⟨Flag.bit f⟩⟩

/-- The set with one more flag. -/
def insert (s : FlagSet F) (f : F) : FlagSet F :=
  s ∪ {f}

/-- The bit of a flag is set. -/
instance : Membership F (FlagSet F) := ⟨fun s f => s.bits &&& Flag.bit f = Flag.bit f⟩

instance (f : F) (s : FlagSet F) : Decidable (f ∈ s) :=
  inferInstanceAs (Decidable (s.bits &&& Flag.bit f = Flag.bit f))

/-- The set of the given flags. -/
def ofList (fs : List F) : FlagSet F :=
  fs.foldl insert ∅

/-- All flags of the family. -/
def full : FlagSet F :=
  ofList Flag.all

/-- The known flags of a set, in the order of the family. -/
def toList (s : FlagSet F) : List F :=
  Flag.all.filter (· ∈ s)

/-- The set without the bits that no flag owns. -/
def truncate (s : FlagSet F) : FlagSet F :=
  ⟨s.bits &&& (full : FlagSet F).bits⟩

/-- Every bit of the set is owned by a flag. -/
def isKnown (s : FlagSet F) : Bool :=
  decide (s.truncate = s)

end FlagSet

/-! ## The operations by their bits -/

namespace FlagSet

variable {F : Type}

@[simp] theorem bits_empty : (∅ : FlagSet F).bits = 0 := rfl

@[simp] theorem bits_union (s t : FlagSet F) : (s ∪ t).bits = s.bits ||| t.bits := rfl

theorem isEmpty_iff {s : FlagSet F} : s.isEmpty = true ↔ s = ∅ := by
  simp [isEmpty, FlagSet.ext_iff]

variable [Flag F]

@[simp] theorem bits_singleton (f : F) : ({f} : FlagSet F).bits = Flag.bit f := rfl

@[simp] theorem bits_insert (s : FlagSet F) (f : F) : (s.insert f).bits = s.bits ||| Flag.bit f :=
  rfl

theorem mem_iff {f : F} {s : FlagSet F} : f ∈ s ↔ s.bits &&& Flag.bit f = Flag.bit f := Iff.rfl

end FlagSet

end RootSignature
