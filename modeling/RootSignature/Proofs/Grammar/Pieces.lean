import Mathlib.Data.List.Perm.Basic
import RootSignature.Proofs.Grammar.Composition

/-!
# Lists and their pieces

A list of items or of declarations is cut into pieces at its commas (`commaList_iff`), and there is
one way only to cut it into pieces that are written by the rule (`Cuts.forall₂_of_commaList`,
`Declarations.forall₂`): what is read off the front of a list is decided by what stands there, since
the readers accept the rules. A comma in the parentheses of a range can not be taken for one of the
table.
-/

namespace RootSignature

open Grammar Reader

/-! ## Lists that are related one by one -/

/-- A member of a list is related to a member of a list that is related to the list. -/
theorem exists_of_mem_forall₂ {α β : Type} {R : α → β → Prop} {as : List α} {bs : List β}
    (h : List.Forall₂ R as bs) {b : β} (hb : b ∈ bs) : ∃ a ∈ as, R a b := by
  induction h with
  | nil => cases hb
  | @cons a b' as bs hab _ ih =>
      rcases List.mem_cons.1 hb with rfl | hb
      · exact ⟨a, List.mem_cons_self .., hab⟩
      · obtain ⟨a', ha', hab'⟩ := ih hb
        exact ⟨a', List.mem_cons_of_mem a ha', hab'⟩

/-- Values that there are one by one make a list. -/
theorem exists_forall₂ {α β : Type} {R : α → β → Prop} {as : List α} (h : ∀ a ∈ as, ∃ b, R a b) :
    ∃ bs, List.Forall₂ R as bs := by
  induction as with
  | nil => exact ⟨[], .nil⟩
  | cons a as ih =>
      obtain ⟨⟨b, hb⟩, has⟩ := List.forall_mem_cons.1 h
      obtain ⟨bs, hbs⟩ := ih has
      exact ⟨b :: bs, .cons hb hbs⟩

namespace Grammar

variable {α : Type} {rule : Rule α}

/-! ## Pieces -/

/-- Values with commas between them are written as pieces with commas between them. -/
theorem commaList_iff {ts : List Token} {as : List α} :
    CommaList rule ts as ↔
      ∃ xs, as ≠ [] ∧ ts = [.comma].intercalate xs ∧ List.Forall₂ rule xs as := by
  refine ⟨fun h => ?_, ?_⟩
  · induction h with
    | @single x a ha => exact ⟨[x], by simp, by simp, .cons ha .nil⟩
    | @cons x ts a as ha _ ih =>
        obtain ⟨xs, hne, rfl, hxs⟩ := ih
        have hne' : xs ≠ [] := by
          rintro rfl
          exact hne (List.forall₂_nil_left_iff.1 hxs)
        exact ⟨x :: xs, by simp, by simp [List.intercalate_cons_of_ne_nil hne'], .cons ha hxs⟩
  · rintro ⟨xs, hne, rfl, hxs⟩
    induction hxs with
    | nil => exact absurd rfl hne
    | @cons x a xs as ha hxs ih =>
        cases hxs with
        | nil => simpa using CommaList.single ha
        | cons hb hxs =>
            have hlist := CommaList.cons ha (ih (by simp))
            simpa [List.intercalate_cons_cons] using hlist

/-- The list ends here, or a comma comes next. -/
def EndsPiece (ts : List Token) : Prop := ∀ t ∈ ts.head?, t = .comma

/-- What a rule writes has a token, and is cut off in one way only. -/
structure Cuts (rule : Rule α) : Prop where
  ne_nil : ∀ a, ¬ rule [] a
  unique : ∀ {x y s s' : List Token} {a b : α}, rule x a → rule y b → EndsPiece s → EndsPiece s' →
    x ++ s = y ++ s' → x = y ∧ a = b

/-- What is written stands for one value. -/
theorem Cuts.rightUnique (h : Cuts rule) : Relator.RightUnique rule := by
  intro x a b ha hb
  have hends : EndsPiece [] := by simp [EndsPiece]
  exact (h.unique ha hb hends hends rfl).2

/-- Behind the first piece nothing comes, or a comma and the other pieces. -/
theorem exists_intercalate_cons (x : List Token) (xs : List (List Token)) :
    ∃ s, [.comma].intercalate (x :: xs) = x ++ s ∧ EndsPiece s ∧
      (xs = [] ∧ s = [] ∨ s = .comma :: [.comma].intercalate xs) := by
  cases xs with
  | nil => exact ⟨[], by simp, by simp [EndsPiece], .inl ⟨rfl, rfl⟩⟩
  | cons y ys =>
      exact ⟨_, by rw [List.intercalate_cons_cons, List.append_assoc, List.singleton_append],
        by simp [EndsPiece], .inr rfl⟩

/-- Pieces that are written by a rule can be told from the list. -/
theorem Cuts.intercalate_inj (h : Cuts rule) {xs ys : List (List Token)}
    (hxs : ∀ x ∈ xs, ∃ a, rule x a) (hys : ∀ y ∈ ys, ∃ a, rule y a)
    (heq : [.comma].intercalate xs = [.comma].intercalate ys) : xs = ys := by
  have hnil {x : List Token} {xs : List (List Token)} (hx : ∃ a, rule x a) :
      [.comma].intercalate (x :: xs) ≠ [] := by
    obtain ⟨s, hs, -⟩ := exists_intercalate_cons x xs
    obtain ⟨a, ha⟩ := hx
    rintro hempty
    obtain ⟨rfl, -⟩ := List.append_eq_nil_iff.1 (hs.symm.trans hempty)
    exact h.ne_nil a ha
  induction xs generalizing ys with
  | nil =>
      cases ys with
      | nil => rfl
      | cons y ys => exact absurd heq.symm (hnil (hys y (List.mem_cons_self ..)))
  | cons x xs ih =>
      cases ys with
      | nil => exact absurd heq (hnil (hxs x (List.mem_cons_self ..)))
      | cons y ys =>
          obtain ⟨⟨a, ha⟩, hxs'⟩ := List.forall_mem_cons.1 hxs
          obtain ⟨⟨b, hb⟩, hys'⟩ := List.forall_mem_cons.1 hys
          obtain ⟨s, hs, hends, htail⟩ := exists_intercalate_cons x xs
          obtain ⟨s', hs', hends', htail'⟩ := exists_intercalate_cons y ys
          rw [hs, hs'] at heq
          obtain ⟨rfl, -⟩ := h.unique ha hb hends hends' heq
          obtain rfl := List.append_cancel_left heq
          -- The rests are the same, so both lists end here or both go on behind a comma.
          rcases htail with ⟨rfl, rfl⟩ | rfl
          · rcases htail' with ⟨rfl, -⟩ | hcomma
            · rfl
            · cases hcomma
          · rcases htail' with ⟨-, hnone⟩ | hcomma
            · cases hnone
            · rw [ih hxs' hys' (List.cons_eq_cons.1 hcomma).2]

/-- Pieces that are written by a rule are written one by one as the values of the list. -/
theorem Cuts.forall₂_of_commaList (h : Cuts rule) {xs : List (List Token)} {as : List α}
    (hxs : ∀ x ∈ xs, ∃ a, rule x a) (hlist : CommaList rule ([.comma].intercalate xs) as) :
    List.Forall₂ rule xs as := by
  obtain ⟨ys, -, heq, hys⟩ := commaList_iff.1 hlist
  have hwritten (y : List Token) (hy : y ∈ ys) : ∃ a, rule y a := by
    obtain ⟨a, -, ha⟩ := exists_of_mem_forall₂ hys.flip hy
    exact ⟨a, ha⟩
  rwa [h.intercalate_inj hxs hwritten heq]

end Grammar

/-! ## Rules that are accepted -/

/-- A lexeme of a token, which stands in no text. -/
def Lexeme.ofToken (t : Token) : Lexeme := ⟨t, "", .first⟩

/-- Lexemes that are made for tokens have these tokens. -/
@[simp] theorem map_token_ofToken (ts : List Token) :
    (ts.map Lexeme.ofToken).map Lexeme.token = ts := by
  rw [List.map_map]
  exact ts.map_id

namespace Reader

variable {α : Type} {rule : Rule α}

/-- What is read from a token on is told from what stands there. -/
theorem AcceptsAt.unique {r : Reader α} {t : Token} {follow : Token → Prop}
    (hr : r.AcceptsAt t follow rule) {x y s s' : List Token} {a b : α} (ha : rule (t :: x) a)
    (hb : rule (t :: y) b) (hs : follow (s.headD .eof)) (hs' : follow (s'.headD .eof))
    (heq : x ++ s = y ++ s') : s = s' ∧ a = b := by
  have hhead (ts : List Token) :
      (head .first (ts.map Lexeme.ofToken)).token = ts.headD .eof := by
    cases ts <;> rfl
  have hrun {x s : List Token} {a : α} (ha : rule (t :: x) a) (hs : follow (s.headD .eof)) :
      r.run .first (.ofToken t :: (x ++ s).map Lexeme.ofToken) =
        (.ok a, s.map Lexeme.ofToken) := by
    refine (hr _ _ _ _ _ rfl (by rwa [hhead])).2 ⟨x.map Lexeme.ofToken, List.map_append, ?_⟩
    rwa [map_token_ofToken]
  have hrun' := hrun hb hs'
  rw [← heq, hrun ha hs] at hrun'
  obtain ⟨hanswer, hrest⟩ := Prod.mk.inj hrun'
  exact ⟨by rw [← map_token_ofToken s, hrest, map_token_ofToken], Except.ok.inj hanswer⟩

/-- Items that are read by their rule can be told from the list. -/
theorem ItemsAccept.cuts {item? : Token → Option (Item α)} {slot? : α → Option Slot}
    (h : ItemsAccept item? rule slot?) : Cuts rule where
  ne_nil := h.ne_nil
  unique {x y s s' a b} ha hb hs hs' heq := by
    cases x with
    | nil => exact absurd ha (h.ne_nil a)
    | cons t x =>
        cases y with
        | nil => exact absurd hb (h.ne_nil b)
        | cons u y =>
            rw [List.cons_append, List.cons_append] at heq
            obtain ⟨rfl, heq'⟩ := List.cons_eq_cons.1 heq
            cases hitem : item? t with
            | none => exact absurd ha (h.refused _ _ _ hitem)
            | some item =>
                -- An item is read up to a comma or a closing parenthesis.
                have hend {s : List Token} (hs : EndsPiece s) :
                    endsItem ((s ++ [Token.rightParen]).headD .eof) := by
                  cases s with
                  | nil => exact .inr rfl
                  | cons u s => exact .inl (hs u rfl)
                have hclosed : x ++ (s ++ [.rightParen]) = y ++ (s' ++ [.rightParen]) := by
                  rw [← List.append_assoc, heq', List.append_assoc]
                obtain ⟨hrest, rfl⟩ :=
                  (h.accepted t item hitem).unique ha hb (hend hs) (hend hs') hclosed
                obtain rfl := List.append_cancel_right hrest
                exact ⟨congrArg (t :: ·) (List.append_cancel_right heq'), rfl⟩

end Reader

namespace Grammar

variable {dialect : Dialect}

/-- Tokens stand for one list of declarations, if it declares the flags of the whole once at
most. -/
theorem Declarations.unique {ts : List Token} {ds ds' : List Declaration}
    (h : Declarations dialect ts ds) (hroom : FlagsRoom false ds)
    (h' : Declarations dialect ts ds') : ds = ds' := by
  -- The words that open the flags are counted in the tokens.
  have hroom' : FlagsRoom false ds' := by
    unfold FlagsRoom at hroom ⊢
    rwa [← h'.count_rootFlags, h.count_rootFlags]
  have hread {ds : List Declaration} (h : Declarations dialect ts ds) (hroom : FlagsRoom false ds) :
      (readDeclarations dialect .first false (ts.map Lexeme.ofToken)).declarations = ds :=
    (readDeclarations_eq_ok_iff.2 ⟨(map_token_ofToken ts).symm ▸ h, hroom⟩).2
  rw [← hread h hroom, hread h' hroom']

/-- Tokens are written for one declaration at most. -/
theorem declaration_rightUnique : Relator.RightUnique (Declaration.Written dialect) := by
  intro x d d' hd hd'
  have hroom : FlagsRoom false [d] := flagsRoom_cons.2 ⟨by simp, flagsRoom_nil _⟩
  have hunique := Declarations.unique (.list (.single hd)) hroom (.list (.single hd'))
  exact (List.cons_eq_cons.1 hunique).1

end Grammar
end RootSignature
