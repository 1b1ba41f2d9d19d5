import RootSignature.Proofs.Reader.Lockstep
import RootSignature.Proofs.Token.Lookahead

/-!
# One text in two places

The lexemes of a text are the same wherever the text stands, only their locations move along with it
(`lists_moved`). So what is read of it is the same too, and an error moves along
(`readDeclarations_moved`).
-/

namespace RootSignature

/-- The same error in a text that stands behind a location, and in the same text so many bytes
behind another one. -/
structure ParseError.Moved (base base' : Location) (n : Nat) (e e' : ParseError) : Prop where
  reason : e'.reason = e.reason
  width : e'.width = e.width
  location : ∃ k, e.location = base.offset k ∧ e'.location = base'.offset (n + k)

/-- A text behind a location is compared with the same text so many bytes behind another one. -/
def Pairing.moved (base base' : Location) (n : Nat) (cs : List Char) : Pairing where
  Pair l l' := l.token = l'.token ∧ l.text = l'.text ∧
    ∃ k, l.location = base.offset k ∧ l'.location = base'.offset (n + k)
  token_eq h := h.1
  stop := base.offset (byteLength cs)
  stop' := base'.offset (n + byteLength cs)
  tail := []
  tail' := []

variable {base base' : Location} {n : Nat} {cs : List Char}

/-- The text is compared up to its end. -/
theorem Pairing.closed_moved : (moved base base' n cs).Closed :=
  ⟨rfl, rfl, rfl, rfl, byteLength cs, rfl, rfl⟩

/-- Errors at lexemes that go together are the same. -/
theorem Pairing.moved_refuse {l l' : Lexeme} (h : (moved base base' n cs).Pair l l')
    (reason : Reason) : (l.refuse reason).Moved base base' n (l'.refuse reason) := by
  obtain ⟨-, htext, hlocation⟩ := h
  refine ⟨?_, ?_, hlocation⟩
  · show reason.withFound l'.text = reason.withFound l.text
    rw [htext]
  · show l'.text.utf8ByteSize = l.text.utf8ByteSize
    rw [htext]

/-- The lexemes of the text go together with those of the moved text. -/
theorem lists_moved (base base' : Location) (n : Nat) (cs : List Char) :
    (Pairing.moved base base' n cs).Lists (lexemesFrom base 0 cs) (lexemesFrom base' n cs) := by
  have hfrom (offset : Nat) (cs' : List Char) : (Pairing.moved base base' n cs).Lists
      (lexemesFrom base offset cs') (lexemesFrom base' (n + offset) cs') := by
    fun_induction lexemesFrom base offset cs' with
    | case1 offset =>
        rw [lexemesFrom]
        exact .tail
    | case2 offset cs' ih =>
        rw [lexemesFrom_space]
        exact ih
    | case3 offset c cs' hc first ih =>
        rw [lexemesFrom_of_scan base' (n + offset) hc rfl, Nat.add_assoc]
        exact .cons ⟨rfl, rfl, offset, rfl, rfl⟩ ih
  exact hfrom 0 cs

/-- A text has the same tokens in both places. -/
theorem tokens_moved (base base' : Location) (n : Nat) (cs : List Char) :
    (lexemesFrom base' n cs).map Lexeme.token = (lexemesFrom base 0 cs).map Lexeme.token :=
  ((lists_moved base base' n cs).tokens_eq Pairing.closed_moved).symm

/-- A text is read alike in both places, up to the locations of errors. -/
theorem readDeclarations_moved {dialect : Dialect} {flagsDeclared : Bool} {e : ParseError}
    (h : (readDeclarations dialect (base.offset (byteLength cs)) flagsDeclared
      (lexemesFrom base 0 cs)).failure? = some e) :
    ∃ e', (readDeclarations dialect (base'.offset (n + byteLength cs)) flagsDeclared
      (lexemesFrom base' n cs)).failure? = some e' ∧ e.Moved base base' n e' := by
  obtain ⟨reason, l, l', hpair, rfl, hfailure⟩ :=
    (follows_readDeclarations dialect flagsDeclared (lists_moved base base' n cs)).failure
      Pairing.closed_moved h
  exact ⟨_, hfailure, Pairing.moved_refuse hpair reason⟩

end RootSignature
