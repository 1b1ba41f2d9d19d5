import RootSignature.Proofs.Error.Reasons

/-!
# Lists of declarations that break off

A list of declarations that is not read to its end breaks off behind some declarations. Which these
are does not depend on how declarations are read (`Grammar.BreaksOff`): each but the last has a
comma behind it, and the list breaks off at the last one for want of a comma, or where no other
declaration can be completed. What has been read before an error are just these declarations
(`breaksOff_of_readDeclarations`, `Grammar.BreaksOff.declarations_eq`).
-/

namespace RootSignature

open Grammar Reader

variable {dialect : Dialect} {stop : Location} {flagsDeclared : Bool} {ls : List Lexeme}
  {ds : List Declaration} {e : ParseError}

/-- A list of lexemes has some complete declarations at its start and then breaks off with an error.
The flags of the whole signature may have been declared before. -/
inductive Grammar.BreaksOff (dialect : Dialect) (stop : Location) :
    Bool → List Lexeme → List Declaration → ParseError → Prop
  /-- The list breaks off somewhere behind a declaration and a comma. -/
  | behind {flagsDeclared : Bool} {front rest : List Lexeme} {comma : Lexeme} {d : Declaration}
      {ds : List Declaration} {e : ParseError} :
      Declaration.Written dialect (front.map Lexeme.token) d → ¬ (d.isRootFlags ∧ flagsDeclared) →
      comma.token = .comma → BreaksOff dialect stop (flagsDeclared || d.isRootFlags) rest ds e →
      BreaksOff dialect stop flagsDeclared (front ++ comma :: rest) (d :: ds) e
  /-- Something else than a comma follows a declaration. -/
  | separator {flagsDeclared : Bool} {front rest : List Lexeme} {l : Lexeme} {d : Declaration} :
      Declaration.Written dialect (front.map Lexeme.token) d → ¬ (d.isRootFlags ∧ flagsDeclared) →
      l.token ≠ .comma →
      BreaksOff dialect stop flagsDeclared (front ++ l :: rest) [d]
        (.atLexeme (.expectedComma l.text) l)
  /-- No declaration is complete, but for flags that have been declared before. -/
  | declaration {flagsDeclared : Bool} {ls : List Lexeme} {e : ParseError} : ls ≠ [] →
      (∀ front back d, ls = front ++ back → Declaration.Written dialect (front.map Lexeme.token) d →
        d.isRootFlags ∧ flagsDeclared) →
      e.Within stop ls → (∀ found, e.reason ≠ .expectedComma found) →
      BreaksOff dialect stop flagsDeclared ls [] e

/-- A complete declaration at the start of a list is read from its first word on. -/
theorem Declaration.run_of_written {first : Lexeme} {front back : List Lexeme} {d : Declaration}
    (stop : Location) (hlist : first :: ls = front ++ back)
    (hd : Written dialect (front.map Lexeme.token) d) :
    (d.isRootFlags ↔ first.token = .keyword (.opening .rootFlags)) ∧
      ∃ reader, ofToken? dialect first.token = some reader ∧
        reader.run stop (first :: ls) = (.ok d, back) := by
  obtain ⟨first', tail, reader, rfl, hword, hreader, hrun⟩ := exists_run_of_written hd stop back
  obtain ⟨rfl, rfl⟩ := List.cons.inj hlist
  exact ⟨hword, reader, hreader, hrun⟩

/-- If declarations are not read to the end, then the list breaks off behind what has been read. -/
theorem breaksOff_of_readDeclarations
    (h : (readDeclarations dialect stop flagsDeclared ls).failure? = some e) :
    BreaksOff dialect stop flagsDeclared ls
      (readDeclarations dialect stop flagsDeclared ls).declarations e := by
  have hwithin := (blame_of_readDeclarations h).within
  fun_induction readDeclarations dialect stop flagsDeclared ls with
  | case1 | case5 => cases h
  | case2 flagsDeclared first ls hfirst =>
      cases h
      refine .declaration (List.cons_ne_nil _ _) (fun front back d hlist hd => ?_) hwithin
        fun _ hfound => by cases hfound
      exact ⟨(Declaration.run_of_written stop hlist hd).1.2 hfirst.1, hfirst.2⟩
  | case3 flagsDeclared first ls _ hreader =>
      cases h
      refine .declaration (List.cons_ne_nil _ _) (fun front back d hlist hd => ?_) hwithin
        fun _ hfound => by cases hfound
      obtain ⟨-, reader, hreader', -⟩ := Declaration.run_of_written stop hlist hd
      cases hreader.symm.trans hreader'
  | case4 flagsDeclared first ls _ reader hreader e' rest hrun =>
      cases h
      refine .declaration (List.cons_ne_nil _ _) (fun front back d hlist hd => ?_) hwithin
        fun found hfound => ?_
      · obtain ⟨-, reader', hreader', hrun'⟩ := Declaration.run_of_written stop hlist hd
        obtain rfl := Option.some.inj (hreader.symm.trans hreader')
        cases hrun.symm.trans hrun'
      · have hreason := Declaration.refusesFor hreader stop _ e ⟨rest, hrun⟩
        rw [hfound] at hreason
        exact hreason
  | case6 flagsDeclared first ls hfirst reader hreader d separator rest hrun hcomma reading ih =>
      obtain ⟨front, hfront, hd, hflags⟩ := written_of_run hfirst hreader hrun
      rw [hfront]
      exact .behind hd hflags hcomma (ih h (blame_of_readDeclarations h).within)
  | case7 flagsDeclared first ls hfirst reader hreader d separator rest hrun hcomma =>
      cases h
      obtain ⟨front, hfront, hd, hflags⟩ := written_of_run hfirst hreader hrun
      rw [hfront]
      exact .separator hd hflags hcomma

/-- Where a list breaks off does not depend on the error: the declarations before are those that are
read of the list. -/
theorem Grammar.BreaksOff.declarations_eq (h : BreaksOff dialect stop flagsDeclared ls ds e) :
    (readDeclarations dialect stop flagsDeclared ls).declarations = ds := by
  induction h with
  | behind hd hflags hcomma _ ih =>
      rw [readDeclarations_of_written hd hflags]
      dsimp only
      rw [if_pos hcomma, ih]
  | separator hd hflags hcomma =>
      rw [readDeclarations_of_written hd hflags]
      dsimp only
      rw [if_neg hcomma]
  | @declaration flagsDeclared ls e hne hnone =>
      -- Whatever is read to its end would have been written at the start of the list.
      fun_cases readDeclarations dialect stop flagsDeclared ls with
      | case1 => exact absurd rfl hne
      | case2 | case3 | case4 => rfl
      | case5 first ls hfirst reader hreader d hrun
      | case6 first ls hfirst reader hreader d separator rest hrun
      | case7 first ls hfirst reader hreader d separator rest hrun =>
          obtain ⟨front, hfront, hd, hflags⟩ := written_of_run hfirst hreader hrun
          exact absurd (hnone front _ d hfront hd) hflags

end RootSignature
