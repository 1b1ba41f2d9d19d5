import Mathlib.Data.List.Forall2
import RootSignature.Proofs.Token.Lookahead

/-!
# Texts that are edited token by token

An edit exchanges the runs of spaces between the tokens of a text, and the texts of the tokens, for
others (`Edit.Rewrites`). Every text can be edited in this way, since it is tiled by its lexemes
(`Edit.exists_rewrites`). An edit is harmless if every token is still cut off where it was and is
the same token (`Edit.Harmless`). Then the lexemes of both texts go together one by one
(`Edit.Harmless.lexemes`), and how far they are moved is known if it is known of one gap and of one
token.
-/

namespace RootSignature

/-! ## Lexemes behind spaces -/

/-- Spaces in front move the lexemes by as many bytes. -/
theorem lexemesFrom_spaces (base : Location) (offset n : Nat) (cs : List Char) :
    lexemesFrom base offset (List.replicate n ' ' ++ cs) = lexemesFrom base (offset + n) cs := by
  induction n generalizing offset with
  | zero => rfl
  | succ n ih =>
      rw [List.replicate_succ, List.cons_append, lexemesFrom_space, ih, Nat.add_assoc,
        Nat.add_comm 1]

/-- A text that starts with the text of its first lexeme starts there, and the other lexemes are
those of what is behind it. -/
theorem scan_of_lexemesFrom_eq {base : Location} {offset : Nat} {cs : List Char} {l : Lexeme}
    {ls : List Lexeme} (h : lexemesFrom base offset (l.text.toList ++ cs) = l :: ls) :
    ∃ c tail, l.text.toList = c :: tail ∧ c ≠ ' ' ∧
      FirstToken.scan c (tail ++ cs) = ⟨l.token, c :: tail, cs⟩ ∧
      l.location = base.offset offset ∧ ls = lexemesFrom base (offset + l.width) cs := by
  have hl : l ∈ lexemesFrom base offset (l.text.toList ++ cs) := by
    rw [h]
    exact List.mem_cons_self ..
  obtain ⟨c, cs₀, hc, -, htext⟩ := exists_scan_of_mem hl
  obtain ⟨_, tail, _, hscan₀, -⟩ := FirstToken.exists_scan_eq c cs₀
  rw [hscan₀] at htext
  obtain ⟨token, tail', rest, hscan, hrest⟩ := FirstToken.exists_scan_eq c (tail ++ cs)
  rw [htext, List.cons_append, lexemesFrom_of_scan base offset hc hscan] at h
  obtain ⟨rfl, rfl⟩ := List.cons_eq_cons.1 h
  obtain rfl : tail' = tail := (List.cons_eq_cons.1 (String.toList_ofList.symm.trans htext)).2
  obtain rfl := List.append_cancel_left hrest
  refine ⟨c, tail', htext, hc, hscan, rfl, ?_⟩
  rw [Lexeme.width, utf8ByteSize_ofList]

/-! ## Edits -/

/-- What may be exchanged for what in a text. -/
structure Edit where
  /-- So many spaces may be exchanged for so many others. -/
  Gap : Nat → Nat → Prop
  /-- The text of a lexeme may be exchanged for another one. -/
  Text : Lexeme → List Char → Prop

/-- An edit makes a text out of another one, which consists of spaces and of the texts of some
lexemes. -/
inductive Edit.Rewrites (E : Edit) : List Char → List Lexeme → List Char → Prop
  /-- Only spaces are left. -/
  | spaces {m n : Nat} : E.Gap m n → Rewrites E (List.replicate m ' ') [] (List.replicate n ' ')
  /-- Some spaces, the text of a lexeme, and what follows. -/
  | lexeme {m n : Nat} {l : Lexeme} {ls : List Lexeme} {text cs cs' : List Char} :
      E.Gap m n → E.Text l text → Rewrites E cs ls cs' →
      Rewrites E (List.replicate m ' ' ++ (l.text.toList ++ cs)) (l :: ls)
        (List.replicate n ' ' ++ (text ++ cs'))

/-- An edit that has something for every gap and for every lexeme can be made in every text. -/
theorem Edit.exists_rewrites {E : Edit} (hgap : ∀ m, ∃ n, E.Gap m n)
    (htext : ∀ l, ∃ text, E.Text l text) {base : Location} {offset : Nat} {cs : List Char}
    {ls : List Lexeme} (h : Tiles base offset cs ls) : ∃ cs', E.Rewrites cs ls cs' := by
  induction h with
  | spaces m =>
      obtain ⟨n, hn⟩ := hgap m
      exact ⟨_, .spaces hn⟩
  | @lexeme _ m l _ _ _ _ _ _ ih =>
      obtain ⟨n, hn⟩ := hgap m
      obtain ⟨text, hl⟩ := htext l
      obtain ⟨_, hrest⟩ := ih
      exact ⟨_, .lexeme hn hl hrest⟩

/-- Every token is cut off at the same place and is the same after the edit. A relation between
offsets says how far what stands behind it is moved. -/
structure Edit.Harmless (E : Edit) (Place : Nat → Nat → Prop) : Prop where
  gap : ∀ {offset offset' m n : Nat}, Place offset offset' → E.Gap m n →
    Place (offset + m) (offset' + n)
  text : ∀ {offset offset' : Nat} {l : Lexeme} {text : List Char}, Place offset offset' →
    E.Text l text → Place (offset + l.width) (offset' + byteLength text)
  scan : ∀ {l : Lexeme} {c : Char} {tail text cs cs' : List Char} {ls : List Lexeme}, c ≠ ' ' →
    l.text.toList = c :: tail → FirstToken.scan c (tail ++ cs) = ⟨l.token, c :: tail, cs⟩ →
    E.Text l text → E.Rewrites cs ls cs' →
    ∃ c' tail', c' ≠ ' ' ∧ text = c' :: tail' ∧
      FirstToken.scan c' (tail' ++ cs') = ⟨l.token, c' :: tail', cs'⟩

/-- A lexeme of a text and what an edit makes of it. -/
structure Edit.Pair (E : Edit) (Place : Nat → Nat → Prop) (base base' : Location)
    (l l' : Lexeme) : Prop where
  token : l'.token = l.token
  text : E.Text l l'.text.toList
  location : ∃ offset offset', Place offset offset' ∧ l.location = base.offset offset ∧
    l'.location = base'.offset offset'

/-- The lexemes of a text go together one by one with what a harmless edit makes of them. -/
theorem Edit.Harmless.lexemes {E : Edit} {Place : Nat → Nat → Prop} (hE : E.Harmless Place)
    {base base' : Location} {offset offset' : Nat} {cs cs' : List Char} {ls : List Lexeme}
    (h : E.Rewrites cs ls cs') (hls : lexemesFrom base offset cs = ls)
    (hplace : Place offset offset') :
    List.Forall₂ (E.Pair Place base base') ls (lexemesFrom base' offset' cs') := by
  induction h generalizing offset offset' with
  | @spaces m n hgap =>
      have hnone := lexemesFrom_spaces base' offset' n []
      rw [List.append_nil, lexemesFrom] at hnone
      rw [hnone]
      exact .nil
  | @lexeme m n l ls text cs cs' hgap htext hrest ih =>
      rw [lexemesFrom_spaces] at hls
      obtain ⟨c, tail, hcs, hc, hscan, hlocation, rfl⟩ := scan_of_lexemesFrom_eq hls
      obtain ⟨c', tail', hc', rfl, hscan'⟩ := hE.scan hc hcs hscan htext hrest
      have hstart := hE.gap hplace hgap
      rw [lexemesFrom_spaces, List.cons_append, lexemesFrom_of_scan base' (offset' + n) hc' hscan']
      refine .cons ⟨rfl, ?_, _, _, hstart, hlocation, rfl⟩ (ih rfl (hE.text hstart htext))
      rwa [String.toList_ofList]

/-- Streams whose lexemes go together one by one, and whose ends do, answer what goes together. -/
theorem TokenStream.answer_of_forall₂ {R : Lexeme → Lexeme → Prop} {s s' : TokenStream}
    (h : List.Forall₂ R s.lexemes s'.lexemes) (hstop : R (.endAt s.stop) (.endAt s'.stop))
    (i : Nat) : R (s.answer i) (s'.answer i) := by
  obtain ⟨hlength, hget⟩ := List.forall₂_iff_get.1 h
  rw [answer_eq, answer_eq]
  by_cases hi : i < s.lexemes.length
  · have hi' : i < s'.lexemes.length := hlength ▸ hi
    rw [List.getElem?_eq_getElem hi, List.getElem?_eq_getElem hi']
    exact hget i hi hi'
  · have hi' : ¬ i < s'.lexemes.length := hlength ▸ hi
    rw [List.getElem?_eq_none (Nat.le_of_not_lt hi), List.getElem?_eq_none (Nat.le_of_not_lt hi')]
    exact hstop

end RootSignature
