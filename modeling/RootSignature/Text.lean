/-!
# Texts by bytes

Texts are read as lists of characters and measured in bytes of UTF-8. A position inside a text is
a number of bytes, and `splitAtByte?` is the one place where such a number is turned back into a
cut between two characters: it refuses a position inside a character.
-/

namespace RootSignature

/-- The number of bytes of a text. -/
def byteLength (cs : List Char) : Nat :=
  cs.foldr (fun c n => c.utf8Size + n) 0

@[simp] theorem byteLength_nil : byteLength [] = 0 := rfl

@[simp] theorem byteLength_cons (c : Char) (cs : List Char) :
    byteLength (c :: cs) = c.utf8Size + byteLength cs := rfl

@[simp] theorem byteLength_append (as bs : List Char) :
    byteLength (as ++ bs) = byteLength as + byteLength bs := by
  induction as with
  | nil => simp
  | cons a as ih => simp [ih, Nat.add_assoc]

/-- Every character takes at least one byte. -/
theorem length_le_byteLength (cs : List Char) : cs.length ≤ byteLength cs := by
  induction cs with
  | nil => simp
  | cons c cs ih =>
    have := c.utf8Size_pos
    simp only [List.length_cons, byteLength_cons]
    omega

/-- The measure agrees with the size that strings keep. -/
theorem utf8ByteSize_ofList (cs : List Char) : (String.ofList cs).utf8ByteSize = byteLength cs := by
  induction cs with
  | nil => simp
  | cons c cs ih => simp [String.ofList_cons, ih]

theorem byteLength_toList (s : String) : byteLength s.toList = s.utf8ByteSize := by
  rw [← utf8ByteSize_ofList, String.ofList_toList]

/-- Cuts a text after `n` bytes, or answers `none` if that is inside a character or past the end. -/
def splitAtByte? : List Char → Nat → Option (List Char × List Char)
  | cs, 0 => some ([], cs)
  | [], _ + 1 => none
  | c :: cs, n + 1 =>
    if c.utf8Size ≤ n + 1 then
      (splitAtByte? cs (n + 1 - c.utf8Size)).map fun (before, after) => (c :: before, after)
    else none

/-- A cut loses nothing, and lies where it was asked for. -/
theorem splitAtByte?_eq_some_iff {cs before after : List Char} {n : Nat} :
    splitAtByte? cs n = some (before, after) ↔ cs = before ++ after ∧ n = byteLength before := by
  induction cs generalizing n before after with
  | nil =>
    cases n with
    | zero => cases before <;> cases after <;> simp [splitAtByte?]
    | succ n => cases before <;> simp [splitAtByte?]
  | cons c cs ih =>
    have hc := c.utf8Size_pos
    cases n with
    | zero =>
      cases before with
      | nil => simp [splitAtByte?]
      | cons b before =>
        have hb := b.utf8Size_pos
        have hne : ¬ 0 = b.utf8Size + byteLength before := by omega
        simp [splitAtByte?, hne]
    | succ n =>
      simp only [splitAtByte?]
      split
      · cases before with
        | nil => simp
        | cons b before =>
          simp only [Option.map_eq_some_iff, Prod.mk.injEq, List.cons.injEq, List.cons_append,
            byteLength_cons]
          constructor
          · rintro ⟨⟨before', after'⟩, h, ⟨rfl, rfl⟩, rfl⟩
            obtain ⟨rfl, hn⟩ := ih.1 h
            exact ⟨⟨rfl, rfl⟩, by dsimp only; omega⟩
          · rintro ⟨⟨rfl, rfl⟩, hn⟩
            exact ⟨(before, after), ih.2 ⟨rfl, by omega⟩, ⟨rfl, rfl⟩, rfl⟩
      · cases before with
        | nil => simp
        | cons b before =>
          simp only [reduceCtorEq, List.cons_append, List.cons.injEq, byteLength_cons, false_iff]
          rintro ⟨⟨rfl, _⟩, hn⟩
          omega

end RootSignature
