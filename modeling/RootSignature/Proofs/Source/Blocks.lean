import RootSignature.Source.Line
import RootSignature.Source.Snippet

/-!
# Blocks of locations

The texts that are loaded together take up blocks of locations that lie directly one behind the
other (`Blocks`), as long as there is a number for every location. One more text puts one more block
behind the others (`Blocks.add`), so this holds of all texts that are loaded one by one
(`blocks_ofList`).

Thus a location belongs to one text at most (`Blocks.index_eq`), and to one if it lies before the
end of the last block (`Blocks.exists_contains`). The first text that a location is found in is then
the only one, and locations are the same as places in texts (`locations_eq_positions`).
-/

namespace RootSignature

/-- The number of locations that texts take up: one for every byte, and one for the end of each. -/
def blockLength (texts : List (String × String)) : Nat :=
  texts.foldr (fun (_, text) n => text.utf8ByteSize + 1 + n) 0

/-- The texts take up the locations from a number on and before another one, directly one behind the
other. -/
inductive Blocks : Nat → List SourceFile → Nat → Prop
  | nil (n : Nat) : Blocks n [] n
  | cons {start stop : Nat} {f : SourceFile} {fs : List SourceFile} :
      f.base.raw = start → Blocks (start + f.size + 1) fs stop → Blocks start (f :: fs) stop

namespace SourceFile

variable {f : SourceFile} {l : Location}

/-- A location of a text is one of its block. -/
theorem bounds_of_contains (h : f.contains l = true) :
    f.base.raw ≤ l.raw ∧ l.raw ≤ f.base.raw + f.size := by
  rw [contains, Bool.and_eq_true, decide_eq_true_eq, decide_eq_true_eq, UInt32.le_iff_toNat_le,
    UInt32.lt_iff_toNat_lt, UInt32.toNat_add, UInt32.toNat_ofNat', Nat.add_mod_mod] at h
  exact ⟨h.1, Nat.le_of_lt_succ (Nat.lt_of_lt_of_le h.2 (Nat.mod_le _ _))⟩

/-- The locations of a text are those of its block, if there is a number for each. -/
theorem contains_of_bounds (hend : f.base.raw + f.size < Location.unknownRaw)
    (hl : f.base.raw ≤ l.raw ∧ l.raw ≤ f.base.raw + f.size) : f.contains l = true := by
  have hsum : (f.base.raw + (f.size + 1)) % UInt32.size = f.base.raw + (f.size + 1) :=
    Nat.mod_eq_of_lt (Nat.lt_succ_of_le hend)
  rw [contains, Bool.and_eq_true, decide_eq_true_eq, decide_eq_true_eq, UInt32.le_iff_toNat_le,
    UInt32.lt_iff_toNat_lt, UInt32.toNat_add, UInt32.toNat_ofNat', Nat.add_mod_mod]
  exact ⟨hl.1, hsum.symm ▸ Nat.lt_succ_of_le hl.2⟩

end SourceFile

namespace Blocks

variable {start stop : Nat} {fs : List SourceFile} {f g : SourceFile} {l : Location}

/-! ## One block more -/

/-- A text that starts where the others end is one block more. -/
theorem concat (h : Blocks start fs stop) (hf : f.base.raw = stop) :
    Blocks start (fs ++ [f]) (stop + f.size + 1) := by
  induction h with
  | nil n => exact .cons hf (.nil _)
  | cons hbase _ ih => exact .cons hbase (ih hf)

/-- The last block ends where all end. -/
theorem stop_eq_of_getLast? (h : Blocks start fs stop) (hlast : fs.getLast? = some f) :
    stop = f.base.raw + f.size + 1 := by
  induction h with
  | nil n => cases hlast
  | @cons start stop g fs hbase hrest ih =>
      cases fs with
      | nil =>
          obtain rfl : g = f := Option.some.inj hlast
          cases hrest
          rw [hbase]
      | cons g' fs => exact ih (by rwa [List.getLast?_cons_cons] at hlast)

/-- The next text will start where the others end. -/
theorem nextBase_eq {s : SourceFiles} (h : Blocks 0 s.files stop)
    (hstop : stop ≤ Location.unknownRaw) : s.nextBase.raw = stop := by
  unfold SourceFiles.nextBase
  cases hlast : s.files.getLast? with
  | none =>
      rw [List.getLast?_eq_none_iff.1 hlast] at h
      cases h
      rfl
  | some f =>
      have hend := h.stop_eq_of_getLast? hlast
      have hbase : f.base ≠ .unknown := by
        intro hunknown
        rw [hunknown] at hend
        have hover : Location.unknownRaw < stop := by
          rw [hend]
          exact Nat.lt_succ_of_le (Nat.le_add_right _ _)
        exact absurd hstop (Nat.not_le.2 hover)
      rw [hend] at hstop
      dsimp only
      rw [Location.raw_offset_of_le hbase hstop, hend, Nat.add_assoc]

/-- The blocks with one text more. -/
theorem add {s : SourceFiles} (h : Blocks 0 s.files stop) (hstop : stop ≤ Location.unknownRaw)
    (name text : String) : Blocks 0 (s.add name text).files (stop + text.utf8ByteSize + 1) :=
  h.concat (f := ⟨name, text, s.nextBase⟩) (h.nextBase_eq hstop)

/-! ## The blocks of locations -/

/-- A row of files does not end before it starts. -/
theorem le (h : Blocks start fs stop) : start ≤ stop := by
  induction h with
  | nil n => exact Nat.le_refl n
  | cons _ _ ih => omega

/-- Every text has its block among all of them. -/
theorem bounds_of_mem (h : Blocks start fs stop) (hf : f ∈ fs) :
    start ≤ f.base.raw ∧ f.base.raw + f.size < stop := by
  induction h with
  | nil n => cases hf
  | cons hbase hrest ih =>
      have hle := hrest.le
      rcases List.mem_cons.1 hf with rfl | hf
      · omega
      · have hbounds := ih hf
        omega

/-- A text has a number for each of its bytes, and one more. -/
theorem size_lt (h : Blocks start fs stop) (hstop : stop ≤ Location.unknownRaw) (hf : f ∈ fs) :
    f.size < Location.unknownRaw :=
  calc f.size ≤ f.base.raw + f.size := Nat.le_add_left _ _
    _ < stop := (h.bounds_of_mem hf).2
    _ ≤ Location.unknownRaw := hstop

/-- No number is left out between the blocks. -/
theorem exists_contains (h : Blocks start fs stop) (hstop : stop ≤ Location.unknownRaw)
    (hfirst : start ≤ l.raw) (hlast : l.raw < stop) : ∃ f ∈ fs, f.contains l = true := by
  induction h with
  | nil n => omega
  | @cons start stop g fs hbase hrest ih =>
      have hend := hrest.le
      by_cases hl : l.raw ≤ start + g.size
      · exact ⟨g, List.mem_cons_self .., SourceFile.contains_of_bounds (by omega) (by omega)⟩
      · obtain ⟨f, hf, hfl⟩ := ih hstop (by omega) hlast
        exact ⟨f, List.mem_cons_of_mem g hf, hfl⟩

/-- A location that belongs to the first text belongs to no other. -/
theorem not_contains_tail (h : Blocks start (g :: fs) stop) (hl : g.contains l = true)
    (hf : f ∈ fs) : f.contains l = false := by
  cases h with
  | cons hbase hrest =>
      have hbounds := hrest.bounds_of_mem hf
      have hle := (SourceFile.bounds_of_contains hl).2
      refine Bool.eq_false_iff.2 fun hfl => ?_
      have hge := (SourceFile.bounds_of_contains hfl).1
      omega

/-- A location belongs to one text at most. -/
theorem index_eq (h : Blocks start fs stop) {i j : Nat} (hi : fs[i]? = some f)
    (hj : fs[j]? = some g) (hf : f.contains l = true) (hg : g.contains l = true) : i = j := by
  induction h generalizing i j with
  | nil n => cases hi
  | @cons start stop head fs hbase hrest ih =>
      have hblocks : Blocks start (head :: fs) stop := .cons hbase hrest
      cases i with
      | zero =>
          cases j with
          | zero => rfl
          | succ j =>
              obtain rfl : head = f := Option.some.inj hi
              have hnot := hblocks.not_contains_tail hf (List.mem_of_getElem? hj)
              cases hnot.symm.trans hg
      | succ i =>
          cases j with
          | zero =>
              obtain rfl : head = g := Option.some.inj hj
              have hnot := hblocks.not_contains_tail hg (List.mem_of_getElem? hi)
              cases hnot.symm.trans hf
          | succ j => exact congrArg (· + 1) (ih hi hj)

end Blocks

/-! ## Texts that are loaded one by one -/

/-- What is loaded one by one takes up blocks of locations, behind those that are taken up
already. -/
theorem Blocks.foldl_add (texts : List (String × String)) {s : SourceFiles} {n : Nat}
    (h : Blocks 0 s.files n) (hsize : n + blockLength texts ≤ Location.unknownRaw) :
    Blocks 0 (texts.foldl (fun s (name, text) => s.add name text) s).files
      (n + blockLength texts) := by
  induction texts generalizing s n with
  | nil => exact h
  | cons t texts ih =>
      obtain ⟨name, text⟩ := t
      have hlength : n + blockLength ((name, text) :: texts) =
          n + text.utf8ByteSize + 1 + blockLength texts := by
        show n + (text.utf8ByteSize + 1 + blockLength texts) = _
        omega
      rw [hlength] at hsize ⊢
      exact ih (h.add (by omega) name text) hsize

/-- Files that are loaded one after the other stand in a row if there is a location for each
byte. -/
theorem blocks_ofList {texts : List (String × String)}
    (hsize : blockLength texts ≤ Location.unknownRaw) :
    Blocks 0 (SourceFiles.ofList texts).files (blockLength texts) := by
  have hblocks := Blocks.foldl_add texts (s := {}) (.nil 0) (by rwa [Nat.zero_add])
  rwa [Nat.zero_add] at hblocks

/-- The names and the texts that have been loaded are kept in their order. -/
theorem map_files_ofList (texts : List (String × String)) :
    (SourceFiles.ofList texts).files.map (fun f => (f.name, f.text)) = texts := by
  have hfrom (s : SourceFiles) :
      (texts.foldl (fun s (name, text) => s.add name text) s).files.map
        (fun f => (f.name, f.text)) = s.files.map (fun f => (f.name, f.text)) ++ texts := by
    induction texts generalizing s with
    | nil => exact (List.append_nil _).symm
    | cons t texts ih =>
        obtain ⟨name, text⟩ := t
        rw [List.foldl_cons, ih]
        dsimp only [SourceFiles.add]
        rw [List.map_append, List.append_assoc]
        rfl
  exact hfrom {}

/-! ## The place of a location -/

namespace SourceFiles

variable {s : SourceFiles} {l : Location} {p : SourcePosition}

/-- A location that belongs to a text has a place. -/
theorem position?_ne_none {i : Nat} {f : SourceFile} (hf : s.files[i]? = some f)
    (hl : f.contains l = true) : s.position? l ≠ none := by
  intro hnone
  have hmem : (f, i) ∈ s.files.zipIdx := List.mem_zipIdx_iff_getElem?.2 hf
  have hnot := List.findSome?_eq_none_iff.1 hnone (f, i) hmem
  dsimp only at hnot
  rw [if_pos hl] at hnot
  cases hnot

/-- The place of a location is in a text that it belongs to. -/
theorem position?_eq_some (h : s.position? l = some p) :
    s.files[p.index]? = some p.file ∧ p.file.contains l = true ∧
      p.offset = l.raw - p.file.base.raw := by
  obtain ⟨⟨f, i⟩, hmem, hp⟩ := List.exists_of_findSome?_eq_some h
  dsimp only at hp
  split at hp
  · rename_i hcontains
    cases hp
    exact ⟨List.mem_zipIdx_iff_getElem?.1 hmem, hcontains, rfl⟩
  · cases hp

/-- A text that is added later is searched last. -/
theorem position?_add (h : s.position? l = some p) (name text : String) :
    (s.add name text).position? l = some p := by
  unfold position? at h ⊢
  rw [add, List.zipIdx_append, List.findSome?_append, h]
  rfl

end SourceFiles

namespace Blocks

variable {s : SourceFiles} {stop i offset : Nat} {f : SourceFile} {l : Location}
  {p : SourcePosition}

/-- The place of a location is in the one text that it belongs to. -/
theorem position?_eq (h : Blocks 0 s.files stop) (hf : s.files[i]? = some f)
    (hl : f.contains l = true) : s.position? l = some ⟨i, f, l.raw - f.base.raw⟩ := by
  cases hp : s.position? l with
  | none => exact absurd hp (SourceFiles.position?_ne_none hf hl)
  | some p =>
      obtain ⟨index, file, offset⟩ := p
      obtain ⟨hfile, hcontains, hoffset⟩ := SourceFiles.position?_eq_some hp
      dsimp only at hfile hcontains hoffset
      obtain rfl := h.index_eq hfile hf hcontains hl
      obtain rfl := Option.some.inj (hfile.symm.trans hf)
      rw [hoffset]

/-- Just the locations before the end of the blocks have a place. -/
theorem position?_isSome_iff (h : Blocks 0 s.files stop) (hstop : stop ≤ Location.unknownRaw) :
    (∃ p, s.position? l = some p) ↔ l.raw < stop := by
  refine ⟨fun ⟨p, hp⟩ => ?_, fun hl => ?_⟩
  · obtain ⟨hfile, hcontains, -⟩ := SourceFiles.position?_eq_some hp
    have hend := (h.bounds_of_mem (List.mem_of_getElem? hfile)).2
    have hle := (SourceFile.bounds_of_contains hcontains).2
    omega
  · obtain ⟨f, hf, hcontains⟩ := h.exists_contains hstop (Nat.zero_le _) hl
    obtain ⟨i, hi⟩ := List.mem_iff_getElem?.1 hf
    exact ⟨_, h.position?_eq hi hcontains⟩

/-- No text starts at the unknown position if there is a number for every location. -/
theorem base_ne_unknown (h : Blocks 0 s.files stop) (hstop : stop ≤ Location.unknownRaw)
    (hf : f ∈ s.files) : f.base ≠ .unknown := by
  intro hunknown
  have hend := (h.bounds_of_mem hf).2
  rw [hunknown] at hend
  exact absurd hend (Nat.not_lt.2 (Nat.le_trans hstop (Nat.le_add_right _ _)))

/-- The place of a location in a text, or of its end, is found again. -/
theorem position?_offset (h : Blocks 0 s.files stop) (hstop : stop ≤ Location.unknownRaw)
    (hf : s.files[i]? = some f) (hoffset : offset ≤ f.size) :
    s.position? (f.base.offset offset) = some ⟨i, f, offset⟩ := by
  have hmem := List.mem_of_getElem? hf
  have hend := (h.bounds_of_mem hmem).2
  have hraw : (f.base.offset offset).raw = f.base.raw + offset :=
    Location.raw_offset_of_le (h.base_ne_unknown hstop hmem) (by omega)
  have hcontains : f.contains (f.base.offset offset) = true :=
    SourceFile.contains_of_bounds (by omega) (by omega)
  rw [h.position?_eq hf hcontains, hraw, Nat.add_sub_cancel_left]

/-- The place of a location is at this location. -/
theorem location?_of_position? (h : Blocks 0 s.files stop) (hstop : stop ≤ Location.unknownRaw)
    (hp : s.position? l = some p) : p.file.location? p.offset = some l := by
  obtain ⟨hfile, hcontains, hoffset⟩ := SourceFiles.position?_eq_some hp
  have hmem := List.mem_of_getElem? hfile
  obtain ⟨hbase, hend⟩ := SourceFile.bounds_of_contains hcontains
  have hsum : p.file.base.raw + p.offset = l.raw := by omega
  have hl : p.file.base.offset p.offset = l := by
    ext
    rw [Location.raw_offset_of_le (h.base_ne_unknown hstop hmem) (hsum ▸ l.raw_le), hsum]
  rw [SourceFile.location?, if_pos (by omega), hl]

end Blocks

/-! ## Locations and places -/

/-- If there is a number for every location of the texts that are loaded, locations are the same as
places in texts: the location of every place in a text leads back to it, and the locations that lead
to a place are those before the end of all texts. The unknown position is not among them, and none
of them is in two texts. One more text changes no text that is there, and nothing that is said about
a location in one. -/
theorem locations_eq_positions (texts : List (String × String))
    (hsize : blockLength texts ≤ 4294967295) :
    let s := SourceFiles.ofList texts
    s.files.map (fun f => (f.name, f.text)) = texts ∧
    (∀ (i : Nat) (f : SourceFile) (offset : Nat), s.files[i]? = some f → offset ≤ f.size →
      ∃ l, f.location? offset = some l ∧ s.position? l = some ⟨i, f, offset⟩) ∧
    (∀ l, (∃ p, s.position? l = some p) ↔ l.raw < blockLength texts) ∧
    (∀ l p, s.position? l = some p →
      s.files[p.index]? = some p.file ∧ p.file.location? p.offset = some l) ∧
    s.position? .unknown = none ∧
    (∀ (l : Location) (i j : Nat) (f g : SourceFile), s.files[i]? = some f →
      s.files[j]? = some g → f.contains l = true → g.contains l = true → i = j) ∧
    ∀ name text,
      (∀ (i : Nat) (f : SourceFile), s.files[i]? = some f →
        (s.add name text).files[i]? = some f) ∧
      ∀ l : Location, l.raw < blockLength texts →
        (s.add name text).position? l = s.position? l ∧
        (s.add name text).filePosition? l = s.filePosition? l ∧
        ∀ width, (s.add name text).snippet? l width = s.snippet? l width := by
  intro s
  have h : Blocks 0 s.files (blockLength texts) := blocks_ofList hsize
  refine ⟨map_files_ofList texts, fun i f offset hf hoffset => ?_,
    fun l => h.position?_isSome_iff hsize, fun l p hp => ?_, ?_,
    fun l i j f g hi hj => h.index_eq hi hj, fun name text => ⟨?_, ?_⟩⟩
  · exact ⟨_, if_pos hoffset, h.position?_offset hsize hf hoffset⟩
  · exact ⟨(SourceFiles.position?_eq_some hp).1, h.location?_of_position? hsize hp⟩
  · rw [← Option.not_isSome_iff_eq_none, Option.isSome_iff_exists,
      h.position?_isSome_iff hsize]
    exact Nat.not_lt.2 hsize
  · intro i f hf
    obtain ⟨hi, -⟩ := List.getElem?_eq_some_iff.1 hf
    rw [SourceFiles.add, List.getElem?_append_left hi, hf]
  · intro l hl
    obtain ⟨p, hp⟩ := (h.position?_isSome_iff hsize).2 hl
    have hposition : (s.add name text).position? l = s.position? l := by
      rw [hp]
      exact SourceFiles.position?_add hp name text
    refine ⟨hposition, ?_, fun width => ?_⟩
    · rw [SourceFiles.filePosition?, hposition, SourceFiles.filePosition?]
    · rw [SourceFiles.snippet?, hposition, SourceFiles.snippet?]

/-- A text without bytes has the one location of its end, and that is its own. -/
theorem locations_eq_positions_empty :
    let texts := [("a.rs", "CBV(b0)"), ("b.rs", ""), ("c.rs", "SRV(t0)")]
    let s := SourceFiles.ofList texts
    blockLength texts ≤ 4294967295 ∧
      s.position? ⟨8⟩ = some ⟨1, ⟨"b.rs", "", ⟨8⟩⟩, 0⟩ ∧
      (s.add "d.rs" "").filePosition? ⟨9⟩ = s.filePosition? ⟨9⟩ ∧
      ∀ p, s.position? ⟨17⟩ ≠ some p := by
  intro texts s
  have hsize : blockLength texts ≤ 4294967295 := by decide
  obtain ⟨-, hoffset, hplace, -, -, -, hadd⟩ := locations_eq_positions texts hsize
  obtain ⟨l, hl, hposition⟩ := hoffset 1 ⟨"b.rs", "", ⟨8⟩⟩ 0 rfl (Nat.le_refl 0)
  obtain rfl : ⟨8⟩ = l := Option.some.inj hl
  refine ⟨hsize, hposition, ((hadd "d.rs" "").2 ⟨9⟩ (by decide)).2.1, fun p hp => ?_⟩
  exact absurd ((hplace ⟨17⟩).1 ⟨p, hp⟩) (by decide)

end RootSignature
