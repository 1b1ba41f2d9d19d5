import Mathlib.Data.List.Basic
import RootSignature.Proofs.Source.Blocks
import RootSignature.Proofs.Source.Line

/-!
# Lines, columns and snippets agree

The line and the column of a place are counted from the start of its text, byte by byte, and the
snippet is cut out of the text around the place. Both are about one line of the text, split at its
newlines (`LineAt.splitOn_eq`), so what is said about a place in numbers is what is shown of it
(`lines_and_snippets_agree`).

Columns are counted in bytes also inside a character. So of two places the one further on comes
later by line and column (`LineColumn.advance_before`), although there is no snippet for a place
inside a character (`splitAtByte?_eq_none_iff`).
-/

namespace RootSignature

/-! ## Lines -/

/-- The number of bytes of lines, each of which ends with a newline. -/
def linesLength (lines : List (List Char)) : Nat :=
  lines.foldr (fun line n => byteLength line + 1 + n) 0

/-- A text has one line more than newlines. -/
theorem length_splitOn_newline (cs : List Char) :
    (cs.splitOn '\n').length = cs.count '\n' + 1 := by
  induction cs with
  | nil => rfl
  | cons c cs ih =>
      rw [List.splitOn_cons_eq_if_modifyHead]
      by_cases hc : c = '\n'
      · rw [if_pos (beq_iff_eq.2 hc), List.length_cons, ih, hc, List.count_cons_self]
      · rw [if_neg (mt beq_iff_eq.1 hc), List.length_modifyHead, ih, List.count_cons_of_ne hc]

/-- Split at its newlines, a text loses nothing but the end of its last line. -/
theorem linesLength_splitOn_newline (cs : List Char) :
    linesLength (cs.splitOn '\n') = byteLength cs + 1 := by
  induction cs with
  | nil => rfl
  | cons c cs ih =>
      rw [List.splitOn_cons_eq_if_modifyHead, byteLength_cons]
      by_cases hc : c = '\n'
      · have hsize : c.utf8Size = 1 := by rw [hc]; rfl
        rw [if_pos (beq_iff_eq.2 hc), hsize]
        show 0 + 1 + linesLength (cs.splitOn '\n') = _
        omega
      · rw [if_neg (mt beq_iff_eq.1 hc)]
        obtain ⟨line, lines, hlines⟩ := List.exists_cons_of_ne_nil (List.splitOn_ne_nil '\n' cs)
        rw [hlines] at ih ⊢
        have hsum : byteLength line + 1 + linesLength lines = byteLength cs + 1 := ih
        show c.utf8Size + byteLength line + 1 + linesLength lines = _
        omega

/-- The line of a place is the one behind the earlier lines of the text. -/
theorem LineAt.splitOn_eq {text earlier before after later : List Char} {offset : Nat}
    (h : LineAt text offset earlier before after later) :
    ∃ lines rest, text.splitOn '\n' = lines ++ (before ++ after) :: rest ∧
      lines.length = earlier.count '\n' ∧ linesLength lines = byteLength earlier := by
  have hline : '\n' ∉ before ++ after := by
    rw [List.mem_append]
    exact not_or.2 ⟨h.before_newline, h.after_newline⟩
  obtain ⟨rest, hrest⟩ : ∃ rest,
      (before ++ (after ++ later)).splitOn '\n' = (before ++ after) :: rest := by
    rw [← List.append_assoc]
    rcases h.later_starts with rfl | ⟨cs, rfl⟩
    · exact ⟨[], by rw [List.append_nil, List.splitOn_eq_singleton hline]⟩
    · exact ⟨_, List.splitOn_append_cons_self_of_not_mem hline cs⟩
  rw [h.text_eq]
  rcases h.earlier_ends with rfl | ⟨cs, rfl⟩
  · exact ⟨[], rest, hrest, rfl, rfl⟩
  · refine ⟨cs.splitOn '\n', rest, ?_, ?_, ?_⟩
    · rw [List.append_assoc, List.singleton_append, List.splitOn_append_cons_self, hrest]
    · rw [length_splitOn_newline, List.count_append]
      rfl
    · rw [linesLength_splitOn_newline, byteLength_append]
      rfl

/-! ## Different places -/

namespace LineColumn

/-- The place is in an earlier line, or earlier in the same line. -/
def Before (p q : LineColumn) : Prop :=
  p.line < q.line ∨ p.line = q.line ∧ p.column < q.column

/-- No place is before itself. -/
theorem Before.ne {p q : LineColumn} (h : p.Before q) : p ≠ q := by
  rintro rfl
  rcases h with h | ⟨-, h⟩ <;> exact Nat.lt_irrefl _ h

/-- Going on in a text never leads back. -/
theorem le_advance (p : LineColumn) (n : Nat) (cs : List Char) :
    p.line < (advance p n cs).line ∨
      p.line = (advance p n cs).line ∧ p.column ≤ (advance p n cs).column := by
  fun_induction advance p n cs with
  | case1 | case2 => exact .inr ⟨rfl, Nat.le_refl _⟩
  | case3 p n cs ih =>
      dsimp only at ih
      omega
  | case4 p n c cs hc hsize ih =>
      dsimp only at ih
      omega
  | case5 p n c cs hc hsize => exact .inr ⟨rfl, Nat.le_add_right _ _⟩

/-- Within a character that is no newline every byte counts. -/
theorem advance_within (p : LineColumn) {c : Char} (hc : c ≠ '\n') {n : Nat}
    (hn : n < c.utf8Size) (cs : List Char) :
    advance p n (c :: cs) = { p with column := p.column + n } := by
  cases n with
  | zero => rfl
  | succ n => rw [advance, if_neg hc, if_neg (Nat.not_le.2 hn)]

/-- Further on in a text is later by line and column. -/
theorem advance_before {m n : Nat} {cs : List Char} (hmn : m < n) (hn : n ≤ byteLength cs)
    (p : LineColumn) : (advance p m cs).Before (advance p n cs) := by
  induction cs generalizing m n p with
  | nil => exact absurd hn (Nat.not_le.2 (Nat.zero_lt_of_lt hmn))
  | cons c cs ih =>
      rw [byteLength_cons] at hn
      by_cases hc : c = '\n'
      · obtain ⟨n, rfl⟩ := Nat.exists_eq_add_one_of_ne_zero (Nat.ne_zero_of_lt hmn)
        have hsize : c.utf8Size = 1 := by rw [hc]; rfl
        rw [hc, advance_newline]
        cases m with
        | zero =>
            have hle := le_advance ⟨p.line + 1, 1⟩ n cs
            dsimp only at hle
            rw [advance, Before]
            omega
        | succ m =>
            rw [advance_newline]
            exact ih (by omega) (by omega) _
      · by_cases hn' : n < c.utf8Size
        · rw [advance_within p hc hn', advance_within p hc (Nat.lt_trans hmn hn')]
          exact .inr ⟨rfl, Nat.add_lt_add_left hmn _⟩
        · obtain ⟨n, rfl⟩ := Nat.exists_eq_add_of_le (Nat.le_of_not_lt hn')
          rw [advance_char p hc]
          by_cases hm : m < c.utf8Size
          · have hle := le_advance { p with column := p.column + c.utf8Size } n cs
            dsimp only at hle
            rw [advance_within p hc hm, Before]
            dsimp only
            omega
          · obtain ⟨m, rfl⟩ := Nat.exists_eq_add_of_le (Nat.le_of_not_lt hm)
            rw [advance_char p hc]
            exact ih (by omega) (by omega) _

end LineColumn

/-! ## Places inside a character -/

/-- So many bytes into a text there is a character that has begun and not ended. -/
def InsideCharacter (text : List Char) (offset : Nat) : Prop :=
  ∃ front c back, text = front ++ c :: back ∧
    byteLength front < offset ∧ offset < byteLength front + c.utf8Size

/-- A text can be cut anywhere but inside a character. -/
theorem splitAtByte?_eq_none_iff {text : List Char} {offset : Nat}
    (h : offset ≤ byteLength text) :
    splitAtByte? text offset = none ↔ InsideCharacter text offset := by
  induction text generalizing offset with
  | nil =>
      obtain rfl : offset = 0 := Nat.le_zero.1 h
      simp [splitAtByte?, InsideCharacter]
  | cons c cs ih =>
      cases offset with
      | zero => simp [splitAtByte?, InsideCharacter]
      | succ n =>
          rw [byteLength_cons] at h
          rw [splitAtByte?]
          split
          · next hsize =>
              rw [Option.map_eq_none_iff, ih (by omega)]
              constructor
              · rintro ⟨front, d, back, rfl, hlow, hhigh⟩
                refine ⟨c :: front, d, back, rfl, ?_, ?_⟩
                all_goals rw [byteLength_cons]; omega
              · rintro ⟨front, d, back, htext, hlow, hhigh⟩
                cases front with
                | nil =>
                    obtain ⟨rfl, rfl⟩ := List.cons_eq_cons.1 htext
                    rw [byteLength_nil] at hhigh
                    omega
                | cons e front =>
                    obtain ⟨rfl, rfl⟩ := List.cons_eq_cons.1 htext
                    rw [byteLength_cons] at hlow hhigh
                    exact ⟨front, d, back, rfl, by omega, by omega⟩
          · next hsize =>
              refine iff_of_true rfl ⟨[], c, cs, rfl, ?_, ?_⟩
              all_goals rw [byteLength_nil]; omega

/-! ## Places in text -/

/-- The digits of a number have no colon. -/
theorem colon_notMem_toDigits (n : Nat) : ':' ∉ Nat.toDigits 10 n := by
  intro h
  cases Nat.isDigit_of_mem_toDigits (by decide) (by decide) h

/-- Numbers with the same digits are the same. -/
theorem toDigits_injective {m n : Nat} (h : Nat.toDigits 10 m = Nat.toDigits 10 n) : m = n := by
  rw [← Nat.ofDigitChars_toDigits (b := 10) (n := m) (by decide) (by decide), h,
    Nat.ofDigitChars_toDigits (by decide) (by decide)]

/-- The text of a place in a named text tells its line and its column. -/
theorem FilePosition.eq_of_toString_eq {p q : FilePosition} (hname : p.name = q.name)
    (h : toString p = toString q) : p = q := by
  have htext (p : FilePosition) : (toString p).toList = p.name.toList ++
      ':' :: (Nat.toDigits 10 p.place.line ++ ':' :: Nat.toDigits 10 p.place.column) := by
    show (s!"{p.name}:{p.place.line}:{p.place.column}").toList = _
    simp [Nat.repr, toString]
  have hlist := (htext p).symm.trans ((congrArg String.toList h).trans (htext q))
  rw [hname] at hlist
  obtain ⟨hline, -, hcolumn⟩ := (List.append_cons_inj_of_notMem (colon_notMem_toDigits _)
    (colon_notMem_toDigits _)).1 (List.cons_eq_cons.1 (List.append_cancel_left hlist)).2
  obtain ⟨name, line, column⟩ := p
  obtain rfl : name = q.name := hname
  obtain rfl := toDigits_injective hline
  obtain rfl := toDigits_injective hcolumn
  rfl

/-! ## Places of locations -/

namespace SourceFiles

variable {s : SourceFiles} {l l' : Location} {p p' : SourcePosition}

/-- The place of a location is in its text, or at its end. -/
theorem offset_le_of_position? (h : s.position? l = some p) :
    p.offset ≤ byteLength p.file.text.toList := by
  obtain ⟨-, hcontains, hoffset⟩ := position?_eq_some h
  have hsize : byteLength p.file.text.toList = p.file.size := byteLength_toList p.file.text
  have hbounds := SourceFile.bounds_of_contains hcontains
  omega

/-- Different locations of one text are at different places. -/
theorem filePosition_ne (h : s.position? l = some p) (h' : s.position? l' = some p')
    (hindex : p.index = p'.index) (hne : l ≠ l') :
    p.filePosition.name = p'.filePosition.name ∧ p.filePosition ≠ p'.filePosition := by
  have hle := offset_le_of_position? h
  have hle' := offset_le_of_position? h'
  obtain ⟨hfile, hcontains, hoffset⟩ := position?_eq_some h
  obtain ⟨hfile', hcontains', hoffset'⟩ := position?_eq_some h'
  obtain ⟨index, file, offset⟩ := p
  obtain ⟨index', file', offset'⟩ := p'
  obtain rfl : index = index' := hindex
  obtain rfl : file = file' := Option.some.inj (hfile.symm.trans hfile')
  refine ⟨rfl, fun heq => ?_⟩
  have hplace := congrArg FilePosition.place heq
  have hraw : l.raw ≠ l'.raw := fun heq => hne (Location.ext_raw heq)
  have hbounds := SourceFile.bounds_of_contains hcontains
  have hbounds' := SourceFile.bounds_of_contains hcontains'
  dsimp only at hoffset hoffset' hle hle' hbounds hbounds'
  rcases Nat.lt_or_gt_of_ne (show offset ≠ offset' by omega) with hlt | hgt
  · exact (LineColumn.advance_before hlt hle' _).ne hplace
  · exact (LineColumn.advance_before hgt hle _).ne hplace.symm

/-- There is a snippet for every location but those inside a character. -/
theorem snippet?_eq_none_iff {width : Nat} :
    s.snippet? l width = none ↔
      ∃ p, s.position? l = some p ∧ InsideCharacter p.file.text.toList p.offset := by
  unfold snippet?
  cases hp : s.position? l with
  | none => simp
  | some p =>
      rw [Option.map_eq_none_iff, Snippet.ofOffset?, Option.map_eq_none_iff,
        splitAtByte?_eq_none_iff (offset_le_of_position? hp)]
      simp

end SourceFiles

/-- What is said about a place in numbers is what is shown of it. For every location of a text, but
for those inside a character, the line that is counted is the one of these lines that the snippet
shows, and the column counts the bytes of this line before the place. The mark below the line is
indented by the characters that these bytes make up, and it is as long as it should be, but it ends
where the line ends. Different locations of one text are called by different lines and columns, and
there is no snippet exactly for those inside a character. -/
theorem lines_and_snippets_agree (s : SourceFiles) :
    (∀ l p, s.position? l = some p → ¬ InsideCharacter p.file.text.toList p.offset →
      ∃ lines before after rest,
        p.file.text.toList.splitOn '\n' = lines ++ (before ++ after) :: rest ∧
        s.filePosition? l = some ⟨p.file.name, ⟨lines.length + 1, byteLength before + 1⟩⟩ ∧
        p.offset = linesLength lines + byteLength before ∧
        ∀ width, s.snippet? l width = some (String.ofList (before ++ after ++ '\n' ::
          (List.replicate before.length ' ' ++
            '^' :: List.replicate (max 1 (min width (byteLength after)) - 1) '~') ++ ['\n']))) ∧
    (∀ l l' p p', s.position? l = some p → s.position? l' = some p' → p.index = p'.index →
      l ≠ l' → FilePosition.textOf (s.filePosition? l) ≠ FilePosition.textOf (s.filePosition? l')) ∧
    ∀ l width, s.snippet? l width = none ↔
      ∃ p, s.position? l = some p ∧ InsideCharacter p.file.text.toList p.offset := by
  refine ⟨fun l p hp hinside => ?_, fun l l' p p' hp hp' hindex hne htext => ?_,
    fun l width => SourceFiles.snippet?_eq_none_iff⟩
  · obtain ⟨⟨front, back⟩, hcut⟩ : ∃ cut, splitAtByte? p.file.text.toList p.offset = some cut :=
      Option.ne_none_iff_exists'.1 (mt (splitAtByte?_eq_none_iff
        (SourceFiles.offset_le_of_position? hp)).1 hinside)
    obtain ⟨htext, hoffset⟩ := splitAtByte?_eq_some_iff.1 hcut
    obtain ⟨earlier, before, later, hline⟩ := exists_lineAt front back
    rw [← htext, ← hoffset] at hline
    obtain ⟨lines, rest, hsplit, hlength, hbytes⟩ := hline.splitOn_eq
    refine ⟨lines, before, _, rest, hsplit, ?_, ?_, fun width => ?_⟩
    · rw [SourceFiles.filePosition?, hp, Option.map_some, SourcePosition.filePosition,
        hline.advance_eq, hlength, Nat.add_comm 1, Nat.add_comm 1]
    · rw [hline.offset_eq, hbytes]
    · rw [SourceFiles.snippet?, hp]
      dsimp only
      rw [hline.ofOffset?_eq, Option.map_some]
      rfl
  · obtain ⟨hname, hplace⟩ := SourceFiles.filePosition_ne hp hp' hindex hne
    rw [SourceFiles.filePosition?, SourceFiles.filePosition?, hp, hp'] at htext
    exact hplace (FilePosition.eq_of_toString_eq hname htext)

/-- In a text with wide characters, the sixth byte is the third of the second line. There is no
snippet for the first byte, which is the second half of a character, although it has a line and a
column of its own. -/
theorem lines_and_snippets_agree_wide :
    let s := SourceFiles.ofList [("a.rs", "x"), ("b.rs", "é\nüb=")]
    let file : SourceFile := ⟨"b.rs", "é\nüb=", ⟨2⟩⟩
    s.position? ⟨7⟩ = some ⟨1, file, 5⟩ ∧ ¬ InsideCharacter file.text.toList 5 ∧
      (∃ lines before after rest,
        file.text.toList.splitOn '\n' = lines ++ (before ++ after) :: rest ∧
        s.filePosition? ⟨7⟩ = some ⟨"b.rs", ⟨lines.length + 1, byteLength before + 1⟩⟩ ∧
        5 = linesLength lines + byteLength before ∧
        s.snippet? ⟨7⟩ 9 = some (String.ofList (before ++ after ++ '\n' ::
          (List.replicate before.length ' ' ++
            '^' :: List.replicate (max 1 (min 9 (byteLength after)) - 1) '~') ++ ['\n']))) ∧
      s.position? ⟨3⟩ = some ⟨1, file, 1⟩ ∧ s.snippet? ⟨3⟩ 1 = none ∧
      FilePosition.textOf (s.filePosition? ⟨3⟩) ≠ FilePosition.textOf (s.filePosition? ⟨7⟩) := by
  intro s file
  obtain ⟨hagree, hdifferent, hnone⟩ := lines_and_snippets_agree s
  have hp : s.position? ⟨7⟩ = some ⟨1, file, 5⟩ := by decide
  have hp' : s.position? ⟨3⟩ = some ⟨1, file, 1⟩ := by decide
  have hoffset : 5 ≤ byteLength file.text.toList := by decide
  have hboundary : ¬ InsideCharacter file.text.toList 5 := by
    rw [← splitAtByte?_eq_none_iff hoffset]
    decide
  obtain ⟨lines, before, after, rest, hsplit, hplace, hlength, hsnippet⟩ :=
    hagree _ _ hp hboundary
  refine ⟨hp, hboundary, ⟨lines, before, after, rest, hsplit, hplace, hlength, hsnippet 9⟩, hp',
    (hnone _ _).2 ⟨_, hp', [], 'é', "\nüb=".toList, by decide, by decide, by decide⟩, ?_⟩
  exact hdifferent _ _ _ _ hp' hp rfl (by decide)

end RootSignature
