/-!
# Locations

A location names one byte position among all the texts that are loaded together: every text is
given a block of consecutive numbers, and a location is such a number. Numbers have 32 bits. One of
them, the greatest, is set apart for a position that nobody knows, and moving on from it leads
nowhere.
-/

namespace RootSignature

/-- A byte position among all loaded texts, or the unknown position. -/
structure Location where
  /-- The number of the position. -/
  number : UInt32
deriving DecidableEq

namespace Location

/-- The number of a position, to calculate with. -/
def raw (l : Location) : Nat := l.number.toNat

/-- The number that is set apart for the unknown position. -/
def unknownRaw : Nat := 4294967295

/-- The position that nobody knows. -/
def unknown : Location := ⟨.ofNat unknownRaw⟩

/-- The first position of all. -/
def first : Location := ⟨0⟩

instance : Inhabited Location := ⟨unknown⟩

/-- The position `n` bytes further on. The unknown position stays unknown. Numbers are added without
a check, so behind the greatest one the first ones come again; texts that are loaded together have
no positions there. -/
def offset (l : Location) (n : Nat) : Location :=
  if l = unknown then unknown else ⟨l.number + .ofNat n⟩

/-! ## Numbers -/

/-- Positions are told apart by their numbers. -/
@[ext] theorem ext_raw {l m : Location} (h : l.raw = m.raw) : l = m := by
  have hnumber : l.number = m.number := UInt32.toNat_inj.1 h
  cases l
  cases m
  exact congrArg mk hnumber

/-- Numbers have 32 bits. -/
theorem raw_lt (l : Location) : l.raw < UInt32.size :=
  l.number.toNat_lt

/-- The unknown position has the greatest number. -/
theorem raw_le (l : Location) : l.raw ≤ unknownRaw :=
  Nat.le_of_lt_succ l.raw_lt

/-! ## Moves -/

@[simp] theorem offset_unknown (n : Nat) : unknown.offset n = unknown := by
  simp [offset]

/-- A move adds up, modulo the number of numbers. -/
theorem raw_offset {l : Location} (h : l ≠ unknown) (n : Nat) :
    (l.offset n).raw = (l.raw + n) % UInt32.size := by
  rw [offset, if_neg h, raw, UInt32.toNat_add, UInt32.toNat_ofNat', Nat.add_mod_mod]
  rfl

/-- A move adds up as long as the numbers last. -/
theorem raw_offset_of_le {l : Location} (h : l ≠ unknown) {n : Nat}
    (hroom : l.raw + n ≤ unknownRaw) : (l.offset n).raw = l.raw + n := by
  rw [raw_offset h]
  exact Nat.mod_eq_of_lt (Nat.lt_succ_of_le hroom)

/-- From the first position on, moves are numbers. -/
theorem raw_first_offset (n : Nat) : (first.offset n).raw = n % UInt32.size := by
  rw [raw_offset (by decide)]
  exact congrArg (· % UInt32.size) (Nat.zero_add n)

theorem raw_first_offset_of_le {n : Nat} (h : n ≤ unknownRaw) : (first.offset n).raw = n := by
  rw [raw_first_offset]
  exact Nat.mod_eq_of_lt (Nat.lt_succ_of_le h)

@[simp] theorem offset_zero (l : Location) : l.offset 0 = l := by
  by_cases h : l = unknown
  · rw [h, offset_unknown]
  · ext
    rw [raw_offset h, Nat.add_zero, Nat.mod_eq_of_lt l.raw_lt]

/-- Two moves make one, as long as the first does not end on the number of the unknown position. -/
theorem offset_offset {l : Location} {m n : Nat} (h : l = unknown ∨ l.offset m ≠ unknown) :
    (l.offset m).offset n = l.offset (m + n) := by
  by_cases hl : l = unknown
  · simp [hl]
  · ext
    rw [raw_offset (h.resolve_left hl), raw_offset hl, raw_offset hl, Nat.mod_add_mod,
      Nat.add_assoc]

/-- Only the remainder of a move counts. -/
theorem offset_mod (l : Location) (n : Nat) : l.offset (n % UInt32.size) = l.offset n := by
  by_cases h : l = unknown
  · simp [h]
  · ext
    rw [raw_offset h, raw_offset h, Nat.add_mod_mod]

theorem offset_add_mod (l : Location) (m n : Nat) :
    l.offset (m + n % UInt32.size) = l.offset (m + n) := by
  rw [← offset_mod, Nat.add_mod_mod, offset_mod]

end Location

end RootSignature
