import RootSignature.Source.Line
import RootSignature.Source.Snippet

/-!
# The line of a place

A place between two characters of a text lies in one of its lines (`LineAt`). The line and the
column that are counted for it, and the snippet that is shown for it, are those of this line
(`LineAt.advance_eq`, `LineAt.ofOffset?_eq`).
-/

namespace RootSignature

/-- A place in a text by lines: the lines before it, its own line up to the place and from there on,
and the rest of the text, which starts with the newline that ends the line. -/
structure LineAt (text : List Char) (offset : Nat) (earlier before after later : List Char) :
    Prop where
  text_eq : text = earlier ++ (before ++ (after ++ later))
  offset_eq : offset = byteLength earlier + byteLength before
  before_newline : '\n' ∉ before
  after_newline : '\n' ∉ after
  earlier_ends : earlier = [] ∨ ∃ cs, earlier = cs ++ ['\n']
  later_starts : later = [] ∨ ∃ cs, later = '\n' :: cs

/-! ## Cutting lines off a text -/

/-- What stands before the first newline has no newline. -/
theorem newline_notMem_takeWhile (cs : List Char) : '\n' ∉ cs.takeWhile (· ≠ '\n') := by
  intro h
  have hall := List.all_eq_true.1 (List.all_takeWhile (l := cs)) '\n' h
  simp at hall

/-- What is left behind a line is nothing, or starts with a newline. -/
theorem dropWhile_newline (cs : List Char) :
    cs.dropWhile (· ≠ '\n') = [] ∨ ∃ rest, cs.dropWhile (· ≠ '\n') = '\n' :: rest := by
  induction cs with
  | nil => exact .inl rfl
  | cons c cs ih =>
      by_cases hc : c = '\n'
      · exact .inr ⟨cs, by simp [hc]⟩
      · rw [List.dropWhile_cons_of_pos (by simpa using hc)]
        exact ih

/-- A line is cut off a text up to its newline. -/
theorem takeWhile_newline {line rest : List Char} (hline : '\n' ∉ line)
    (hrest : rest = [] ∨ ∃ cs, rest = '\n' :: cs) :
    (line ++ rest).takeWhile (· ≠ '\n') = line := by
  have hall (c : Char) (hc : c ∈ line) : decide (c ≠ '\n') = true :=
    decide_eq_true fun h => hline (h ▸ hc)
  rw [List.takeWhile_append_of_pos hall]
  rcases hrest with rfl | ⟨cs, rfl⟩
  · simp
  · simp

/-- Every place between two characters has a line. What the line has behind the place is what
follows up to a newline. -/
theorem exists_lineAt (front back : List Char) :
    ∃ earlier before later, LineAt (front ++ back) (byteLength front) earlier before
      (back.takeWhile (· ≠ '\n')) later := by
  have hfront : (front.reverse.dropWhile (· ≠ '\n')).reverse ++
      (front.reverse.takeWhile (· ≠ '\n')).reverse = front := by
    rw [← List.reverse_append, List.takeWhile_append_dropWhile, List.reverse_reverse]
  refine ⟨(front.reverse.dropWhile (· ≠ '\n')).reverse,
    (front.reverse.takeWhile (· ≠ '\n')).reverse, back.dropWhile (· ≠ '\n'), ?_, ?_, ?_, ?_, ?_, ?_⟩
  · rw [List.takeWhile_append_dropWhile, ← List.append_assoc, hfront]
  · rw [← byteLength_append, hfront]
  · rw [List.mem_reverse]
    exact newline_notMem_takeWhile front.reverse
  · exact newline_notMem_takeWhile back
  · rcases dropWhile_newline front.reverse with h | ⟨cs, h⟩
    · exact .inl (by rw [h, List.reverse_nil])
    · exact .inr ⟨cs.reverse, by rw [h, List.reverse_cons]⟩
  · exact dropWhile_newline back

namespace LineAt

variable {text earlier before after later : List Char} {offset : Nat}

/-! ## The snippet -/

/-- The snippet of a place shows its line. -/
theorem ofOffset?_eq (h : LineAt text offset earlier before after later) (width : Nat) :
    Snippet.ofOffset? text offset width = some ⟨before, after, width⟩ := by
  have hsplit : splitAtByte? text offset = some (earlier ++ before, after ++ later) := by
    rw [splitAtByte?_eq_some_iff]
    refine ⟨?_, ?_⟩
    · rw [h.text_eq, List.append_assoc]
    · rw [byteLength_append, h.offset_eq]
  have hbefore : ((earlier ++ before).reverse.takeWhile (· ≠ '\n')).reverse = before := by
    have hends : earlier.reverse = [] ∨ ∃ cs, earlier.reverse = '\n' :: cs := by
      rcases h.earlier_ends with rfl | ⟨cs, rfl⟩
      · exact .inl rfl
      · exact .inr ⟨cs.reverse, by rw [List.reverse_append]; rfl⟩
    have hnewline : '\n' ∉ before.reverse := by
      rw [List.mem_reverse]
      exact h.before_newline
    rw [List.reverse_append, takeWhile_newline hnewline hends, List.reverse_reverse]
  have hafter : (after ++ later).takeWhile (· ≠ '\n') = after :=
    takeWhile_newline h.after_newline h.later_starts
  rw [Snippet.ofOffset?, hsplit, Option.map_some]
  dsimp only
  rw [hbefore, hafter]

end LineAt

/-! ## Counting lines and columns -/

namespace LineColumn

/-- Behind a newline the next line starts. -/
theorem advance_newline (p : LineColumn) (n : Nat) (cs : List Char) :
    advance p (n + 1) ('\n' :: cs) = advance ⟨p.line + 1, 1⟩ n cs := by
  rw [advance, if_pos rfl]

/-- Any other character makes the column go on by its bytes. -/
theorem advance_char (p : LineColumn) {c : Char} (hc : c ≠ '\n') (n : Nat) (cs : List Char) :
    advance p (c.utf8Size + n) (c :: cs) =
      advance { p with column := p.column + c.utf8Size } n cs := by
  obtain ⟨k, hk⟩ : ∃ k, c.utf8Size = k + 1 :=
    Nat.exists_eq_add_one_of_ne_zero (Nat.ne_of_gt c.utf8Size_pos)
  have hsum : c.utf8Size + n = (k + n) + 1 := by omega
  have hle : c.utf8Size ≤ k + n + 1 := by omega
  have hsub : k + n + 1 - c.utf8Size = n := by omega
  rw [hsum, advance, if_neg hc, if_pos hle, hsub]

/-- Within a line the column goes on by the bytes of the text. -/
theorem advance_line (p : LineColumn) {line : List Char} (hline : '\n' ∉ line) (n : Nat)
    (rest : List Char) :
    advance p (byteLength line + n) (line ++ rest) =
      advance { p with column := p.column + byteLength line } n rest := by
  induction line generalizing p with
  | nil => simp
  | cons c line ih =>
      have hc : c ≠ '\n' := fun h => hline (h ▸ List.mem_cons_self ..)
      have htail : '\n' ∉ line := fun h => hline (List.mem_cons_of_mem c h)
      rw [byteLength_cons, Nat.add_assoc, List.cons_append, advance_char p hc, ih _ htail]
      simp only [Nat.add_assoc]

/-- Lines that end with newlines lead to the first column, as many lines further on. -/
theorem advance_lines (p : LineColumn) (lines : List Char) (n : Nat) (rest : List Char) :
    advance p (byteLength (lines ++ ['\n']) + n) (lines ++ ['\n'] ++ rest) =
      advance ⟨p.line + (lines ++ ['\n']).count '\n', 1⟩ n rest := by
  induction lines generalizing p with
  | nil =>
      have hsize : byteLength ([] ++ ['\n']) + n = n + 1 := by
        rw [Nat.add_comm]
        rfl
      rw [hsize]
      exact advance_newline p n rest
  | cons c lines ih =>
      rw [List.cons_append, byteLength_cons, List.cons_append, Nat.add_assoc]
      by_cases hc : c = '\n'
      · have hsize : c.utf8Size + (byteLength (lines ++ ['\n']) + n) =
            byteLength (lines ++ ['\n']) + n + 1 := by
          rw [hc, Nat.add_comm]
          rfl
        have hline : p.line + 1 + (lines ++ ['\n']).count '\n' =
            p.line + ((lines ++ ['\n']).count '\n' + 1) := by omega
        rw [hsize, hc, advance_newline, ih, List.count_cons_self, hline]
      · rw [advance_char p hc, ih, List.count_cons_of_ne hc]

end LineColumn

/-- The line and the column that are counted for a place are those of its line. -/
theorem LineAt.advance_eq {text earlier before after later : List Char} {offset : Nat}
    (h : LineAt text offset earlier before after later) :
    LineColumn.advance {} offset text = ⟨1 + earlier.count '\n', 1 + byteLength before⟩ := by
  have hline (p : LineColumn) :
      LineColumn.advance p (byteLength before) (before ++ (after ++ later)) =
        { p with column := p.column + byteLength before } := by
    have hadvance := LineColumn.advance_line p h.before_newline 0 (after ++ later)
    rw [Nat.add_zero] at hadvance
    rw [hadvance, LineColumn.advance]
  rw [h.text_eq, h.offset_eq]
  rcases h.earlier_ends with rfl | ⟨cs, rfl⟩
  · rw [byteLength_nil, Nat.zero_add, List.nil_append, hline]
    rfl
  · rw [LineColumn.advance_lines, hline]

end RootSignature
