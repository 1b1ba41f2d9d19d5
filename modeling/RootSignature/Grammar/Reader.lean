import RootSignature.Grammar.Error
import RootSignature.Token.Stream

/-!
# Readers

A reader takes lexemes off the front of a list and answers a value or a parse error. Behind the
list the lexeme that marks the end of the text stands again and again, so there is always a next
lexeme. What is left of the list is known in both cases: reading can go on after an error, from the
lexeme that the reader has left there.

A reader only ever takes lexemes off the front. This is part of its type, so that a loop of readers
ends by the length of the list.
-/

namespace RootSignature

/-- A reader of values. -/
structure Reader (α : Type) where
  /-- Reads from a list of lexemes, given the location of the end. -/
  run : Location → List Lexeme → Except ParseError α × List Lexeme
  /-- What is left is the end of what was there. -/
  rest_suffix : ∀ stop ls, (run stop ls).2 <:+ ls

namespace Reader

variable {α β : Type}

@[ext] theorem ext {r r' : Reader α} (h : ∀ stop ls, r.run stop ls = r'.run stop ls) : r = r' := by
  cases r; cases r'
  congr
  funext stop ls
  exact h stop ls

/-- The list does not grow. -/
theorem length_rest_le (r : Reader α) (stop : Location) (ls : List Lexeme) :
    (r.run stop ls).2.length ≤ ls.length :=
  (r.rest_suffix stop ls).length_le

/-! ## Combining readers -/

/-- Answers a value and takes nothing. -/
protected def pure (a : α) : Reader α where
  run _ ls := (.ok a, ls)
  rest_suffix _ _ := List.suffix_rfl

/-- Goes on with the value of a reader, unless it fails. -/
protected def bind (r : Reader α) (f : α → Reader β) : Reader β where
  run stop ls :=
    match r.run stop ls with
    | (.ok a, rest) => (f a).run stop rest
    | (.error e, rest) => (.error e, rest)
  rest_suffix stop ls := by
    have h := r.rest_suffix stop ls
    split
    · next a rest hr =>
      rw [hr] at h
      exact ((f a).rest_suffix stop rest).trans h
    · next e rest hr =>
      rw [hr] at h
      exact h

instance : Monad Reader where
  pure := Reader.pure
  bind := Reader.bind

theorem run_pure (a : α) (stop : Location) (ls : List Lexeme) :
    (pure a : Reader α).run stop ls = (.ok a, ls) := rfl

theorem run_bind (r : Reader α) (f : α → Reader β) (stop : Location) (ls : List Lexeme) :
    (r >>= f).run stop ls =
      match r.run stop ls with
      | (.ok a, rest) => (f a).run stop rest
      | (.error e, rest) => (.error e, rest) := rfl

theorem run_map (f : α → β) (r : Reader α) (stop : Location) (ls : List Lexeme) :
    (f <$> r).run stop ls =
      match r.run stop ls with
      | (.ok a, rest) => (.ok (f a), rest)
      | (.error e, rest) => (.error e, rest) := rfl

/-! ## Single lexemes -/

/-- Looks at the next lexeme and takes nothing. -/
def peek : Reader Lexeme where
  run stop ls := (.ok (ls.headD (.endAt stop)), ls)
  rest_suffix _ _ := List.suffix_rfl

/-- Takes the next lexeme. -/
def next : Reader Lexeme where
  run stop ls := (.ok (ls.headD (.endAt stop)), ls.tail)
  rest_suffix _ ls := List.tail_suffix ls

/-- Fails at a lexeme and takes nothing more. -/
def fail (reason : Reason) (l : Lexeme) : Reader α where
  run _ ls := (.error (.atLexeme reason l), ls)
  rest_suffix _ _ := List.suffix_rfl

theorem run_peek (stop : Location) (ls : List Lexeme) :
    peek.run stop ls = (.ok (ls.headD (.endAt stop)), ls) := rfl

theorem run_next (stop : Location) (ls : List Lexeme) :
    next.run stop ls = (.ok (ls.headD (.endAt stop)), ls.tail) := rfl

theorem run_fail (reason : Reason) (l : Lexeme) (stop : Location) (ls : List Lexeme) :
    (fail reason l : Reader α).run stop ls = (.error (.atLexeme reason l), ls) := rfl

/-- Fails at a lexeme that can not stand where it stands. -/
def unexpected (l : Lexeme) : Reader α :=
  fail (.unexpectedToken l.text) l

/-- Takes the next lexeme, which has to be of a token. -/
def expect (token : Token) : Reader Lexeme := do
  let l ← next
  if l.token = token then pure l else unexpected l

end Reader

end RootSignature
