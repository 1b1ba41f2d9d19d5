import RootSignature.Proofs.Token.Tiling
import RootSignature.Token.Cursor

/-!
# Looking ahead is transparent

Whether a cursor has read a lexeme ahead makes no difference to what it answers. `Cursor.stream` is
what a cursor stands for: the lexemes that it has not handed out, with the one that has been read
ahead in front. Taking a lexeme takes the first of the stream (`Cursor.stream_next`), and the other
calls leave the stream as it is (`Cursor.stream_peek`, `Cursor.atEnd_eq`). So after any calls the
stream lacks as many lexemes as have been taken, and nothing else counts (`Cursor.stream_after`).
-/

namespace RootSignature

/-! ## Streams -/

namespace TokenStream

/-- Going on from the next lexeme is going on by one more. -/
theorem advance_next (s : TokenStream) (n : Nat) : s.next.2.advance n = s.advance (n + 1) := by
  induction n with
  | zero => rfl
  | succ n ih =>
      show (s.next.2.advance n).next.2 = _
      rw [ih]
      rfl

/-- The answers from the next lexeme on are the later ones. -/
theorem answer_next (s : TokenStream) (n : Nat) : s.next.2.answer n = s.answer (n + 1) := by
  rw [answer, advance_next]
  rfl

end TokenStream

/-! ## The stream of a cursor -/

namespace Unread

/-- The lexemes of the part that has not been read. -/
def lexemes (u : Unread) : List Lexeme :=
  lexemesFrom u.base u.offset u.text

/-- The location of the end. -/
def stop (u : Unread) : Location :=
  u.base.offset (u.offset + byteLength u.text)

/-- Spaces are skipped one by one. -/
theorem skipSpaces_cons_space (base : Location) (offset : Nat) (cs : List Char) :
    (⟨base, offset, ' ' :: cs⟩ : Unread).skipSpaces =
      (⟨base, offset + 1, cs⟩ : Unread).skipSpaces := by
  have hsize : (' ' : Char).utf8Size = 1 := rfl
  simp [skipSpaces, hsize, Nat.add_assoc]

/-- No character but a space is skipped. -/
theorem skipSpaces_cons_of_ne {c : Char} (hc : c ≠ ' ') (base : Location) (offset : Nat)
    (cs : List Char) :
    (⟨base, offset, c :: cs⟩ : Unread).skipSpaces = ⟨base, offset, c :: cs⟩ := by
  simp [skipSpaces, hc]

/-- A space in front is skipped before a lexeme is read. -/
theorem read_cons_space (base : Location) (offset : Nat) (cs : List Char) :
    (⟨base, offset, ' ' :: cs⟩ : Unread).read = (⟨base, offset + 1, cs⟩ : Unread).read := by
  rw [read, read, skipSpaces_cons_space]

/-- Reading takes the first lexeme off what has not been read, and answers the end if there is
none. The end stays where it is. -/
theorem read_spec (u : Unread) :
    u.read.1 = u.lexemes.headD (.endAt u.stop) ∧ u.read.2.lexemes = u.lexemes.tail ∧
      u.read.2.stop = u.stop := by
  obtain ⟨base, offset, cs⟩ := u
  induction cs generalizing offset with
  | nil => simp [read, skipSpaces, lexemes, stop, lexemesFrom]
  | cons c cs ih =>
      by_cases hc : c = ' '
      · subst hc
        have hsize : (' ' : Char).utf8Size = 1 := rfl
        have hlexemes : (⟨base, offset, ' ' :: cs⟩ : Unread).lexemes =
            (⟨base, offset + 1, cs⟩ : Unread).lexemes := by
          rw [lexemes, lexemesFrom, if_pos rfl, lexemes]
        have hstop : (⟨base, offset, ' ' :: cs⟩ : Unread).stop =
            (⟨base, offset + 1, cs⟩ : Unread).stop := by
          rw [stop, stop, byteLength_cons, hsize, Nat.add_assoc]
        rw [read_cons_space, hlexemes, hstop]
        exact ih (offset + 1)
      · have hbytes : byteLength (FirstToken.scan c cs).text +
            byteLength (FirstToken.scan c cs).rest = byteLength (c :: cs) := by
          rw [← byteLength_append, FirstToken.text_append_rest]
        rw [read, skipSpaces_cons_of_ne hc]
        refine ⟨?_, ?_, ?_⟩
        · simp [lexemes, lexemesFrom, hc]
        · simp [lexemes, lexemesFrom, hc]
        · simp only [stop, Nat.add_assoc, hbytes]

/-- The lexeme that is read, unless it is the end, and what is left behind it are what was there. -/
theorem filter_read_append_lexemes (u : Unread) :
    [u.read.1].filter (·.token ≠ .eof) ++ u.read.2.lexemes = u.lexemes := by
  obtain ⟨hread, htail, -⟩ := u.read_spec
  rw [hread, htail]
  cases hls : u.lexemes with
  | nil => rfl
  | cons l ls =>
      have hmem : l ∈ u.lexemes := hls ▸ List.mem_cons_self ..
      have hl : l.token ≠ .eof := (lexemesFrom_tiles _ _ _).ne_eof hmem
      simp [hl]

/-- Only spaces are left if no lexeme is. -/
theorem isEmpty_skipSpaces (u : Unread) : u.skipSpaces.text.isEmpty = u.lexemes.isEmpty := by
  obtain ⟨base, offset, cs⟩ := u
  induction cs generalizing offset with
  | nil => simp [skipSpaces, lexemes, lexemesFrom]
  | cons c cs ih =>
      by_cases hc : c = ' '
      · subst hc
        rw [skipSpaces_cons_space, ih, lexemes, lexemes, lexemesFrom, if_pos rfl]
      · rw [skipSpaces_cons_of_ne hc]
        simp [lexemes, lexemesFrom, hc]

end Unread

namespace Cursor

/-- The lexemes that have not been taken: the one that has been read ahead, unless that is the end,
and what has not been read. -/
def stream (c : Cursor) : TokenStream where
  lexemes := (c.lookahead.toList.filter (·.token ≠ .eof)) ++ c.unread.lexemes
  stop := c.unread.stop

/-- At the start, the stream of a cursor is that of the source. -/
theorem stream_ofSource (source : String) (base : Location) :
    (ofSource source base).stream = TokenStream.ofSource source base := by
  simp [stream, ofSource, TokenStream.ofSource, Unread.lexemes, Unread.stop]

/-- If the end has been read ahead, no lexeme is left, and the end is where it has been read. -/
theorem unread_of_lookahead_eof {c : Cursor} {l : Lexeme} (h : c.lookahead = some l)
    (hl : l.token = .eof) : c.unread.lexemes = [] ∧ l = .endAt c.unread.stop := by
  obtain ⟨htext, hend⟩ := c.lookahead_eof l h hl
  refine ⟨by rw [Unread.lexemes, htext, lexemesFrom], ?_⟩
  rw [hend, Unread.stop, htext, byteLength_nil, Nat.add_zero]

/-- What has been read ahead is the next lexeme of the stream, and behind it is what has not been
read. -/
theorem stream_of_lookahead {c : Cursor} {l : Lexeme} (h : c.lookahead = some l) :
    l = c.stream.peek ∧ c.unread.lexemes = c.stream.lexemes.tail := by
  by_cases hl : l.token = .eof
  · obtain ⟨hnil, hend⟩ := unread_of_lookahead_eof h hl
    simp [stream, TokenStream.peek, h, hl, hnil, ← hend]
  · simp [stream, TokenStream.peek, h, hl]

/-- If nothing has been read ahead, the stream is what has not been read. -/
theorem stream_of_lookahead_none {c : Cursor} (h : c.lookahead = none) :
    c.stream = ⟨c.unread.lexemes, c.unread.stop⟩ := by
  simp [stream, h]

/-- Taking a lexeme takes the first one of the stream. -/
theorem stream_next (c : Cursor) :
    c.next.1 = c.stream.next.1 ∧ c.next.2.stream = c.stream.next.2 := by
  unfold next TokenStream.next
  split
  · next l h =>
      obtain ⟨hpeek, htail⟩ := stream_of_lookahead h
      exact ⟨hpeek, (stream_of_lookahead_none rfl).trans (by rw [htail]; rfl)⟩
  · next h =>
      obtain ⟨hread, htail, hstop⟩ := c.unread.read_spec
      rw [stream_of_lookahead_none h]
      exact ⟨hread, (stream_of_lookahead_none rfl).trans (by rw [htail, hstop])⟩

/-- Looking at a lexeme answers the first one of the stream and leaves it there. -/
theorem stream_peek (c : Cursor) : c.peek.1 = c.stream.peek ∧ c.peek.2.stream = c.stream := by
  unfold peek
  split
  · next l h => exact ⟨(stream_of_lookahead h).1, rfl⟩
  · next h =>
      obtain ⟨hread, -, hstop⟩ := c.unread.read_spec
      have hlexemes := c.unread.filter_read_append_lexemes
      rw [stream_of_lookahead_none h]
      exact ⟨hread, by rw [stream, Option.toList_some, hlexemes, hstop]⟩

/-- Whether the end is next does not depend on what has been read ahead. -/
theorem atEnd_eq (c : Cursor) : c.atEnd = c.stream.atEnd := by
  unfold atEnd
  split
  · next l h =>
      by_cases hl : l.token = .eof
      · obtain ⟨hnil, -⟩ := unread_of_lookahead_eof h hl
        simp [stream, TokenStream.atEnd, h, hl, hnil]
      · simp [stream, TokenStream.atEnd, h, hl]
  · next h =>
      rw [stream_of_lookahead_none h]
      exact c.unread.isEmpty_skipSpaces

/-- The end is next exactly if it is what a look at the next lexeme shows. -/
theorem atEnd_iff (c : Cursor) : c.atEnd = true ↔ c.stream.peek.token = .eof := by
  rw [atEnd_eq, TokenStream.atEnd, TokenStream.peek]
  cases hls : c.stream.lexemes with
  | nil => exact ⟨fun _ => rfl, fun _ => rfl⟩
  | cons l ls =>
      have hmem : l ∈ c.stream.lexemes := hls ▸ List.mem_cons_self ..
      have hl : l.token ≠ .eof := by
        rcases List.mem_append.1 hmem with hmem | hmem
        · simpa using (List.mem_filter.1 hmem).2
        · exact (lexemesFrom_tiles _ _ _).ne_eof hmem
      exact ⟨fun h => (nomatch h), fun h => absurd h hl⟩

/-! ## Calls -/

/-- What a cursor can be asked for. -/
inductive Call where
  /-- To take the next lexeme. -/
  | next
  /-- To look at the next lexeme. -/
  | peek
  /-- To tell whether the end is next. -/
  | atEnd
deriving DecidableEq

/-- The cursor after a call. -/
def call (c : Cursor) : Call → Cursor
  | .next => c.next.2
  | .peek => c.peek.2
  | .atEnd => c

/-- The cursor after some calls. -/
def after (c : Cursor) (calls : List Call) : Cursor :=
  calls.foldl call c

/-- The lexemes that are taken by some calls, one by one. -/
def taken (c : Cursor) : List Call → List Lexeme
  | [] => []
  | .next :: calls => c.next.1 :: c.next.2.taken calls
  | .peek :: calls => c.peek.2.taken calls
  | .atEnd :: calls => c.taken calls

/-- A call changes the stream only by taking a lexeme. -/
theorem stream_call (c : Cursor) (call : Call) :
    (c.call call).stream = if call = .next then c.stream.next.2 else c.stream := by
  cases call with
  | next => exact (stream_next c).2
  | peek => exact (stream_peek c).2
  | atEnd => rfl

/-- After some calls the stream lacks as many lexemes as have been taken. -/
theorem stream_after (c : Cursor) (calls : List Call) :
    (c.after calls).stream = c.stream.advance (calls.count .next) := by
  induction calls generalizing c with
  | nil => rfl
  | cons call calls ih =>
      show ((c.call call).after calls).stream = _
      rw [ih, stream_call]
      by_cases hcall : call = .next
      · rw [if_pos hcall, hcall, List.count_cons_self, TokenStream.advance_next]
      · rw [if_neg hcall, List.count_cons_of_ne hcall]

/-- Calls that take nothing leave the next lexeme as it is. -/
theorem next_after_of_notMem (c : Cursor) {calls : List Call} (h : .next ∉ calls) :
    (c.after calls).next.1 = c.stream.peek := by
  rw [(stream_next _).1, stream_after, List.count_eq_zero.2 h]
  rfl

/-- The lexemes that are taken are the first ones of the stream. -/
theorem taken_eq (c : Cursor) (calls : List Call) :
    c.taken calls = (List.range (calls.count .next)).map c.stream.answer := by
  induction calls generalizing c with
  | nil => rfl
  | cons call calls ih =>
      cases call with
      | next =>
          have hanswer : c.stream.next.2.answer = fun n => c.stream.answer (n + 1) :=
            funext c.stream.answer_next
          rw [taken, ih, (stream_next c).1, (stream_next c).2, hanswer, List.count_cons_self,
            List.range_succ_eq_map, List.map_cons, List.map_map]
          rfl
      | peek => rw [taken, ih, (stream_peek c).2, List.count_cons_of_ne (by decide)]
      | atEnd => rw [taken, ih, List.count_cons_of_ne (by decide)]

end Cursor

/-! ## Transparency -/

/-- Whatever a cursor at a source has been asked for, the lexemes that it has handed out are those
of the source in order and then the end again and again, as if nothing but lexemes had been asked
for. What it shows as the next lexeme, and whether that is the end, is what is taken next, whatever
is asked in between that takes nothing. -/
theorem peeking_transparent (source : String) (base : Location) (calls : List Cursor.Call) :
    let start := Cursor.ofSource source base
    let here := start.after calls
    let answer (i : Nat) : Lexeme := (lexemesFrom base 0 (readableText source))[i]?.getD
      (.endAt (base.offset (byteLength (readableText source))))
    start.taken calls = (List.range (calls.count .next)).map answer ∧
    start.taken (calls.filter (· = .next)) = start.taken calls ∧
    here.next.1 = answer (calls.count .next) ∧
    (∀ between : List Cursor.Call, .next ∉ between →
      (here.peek.2.after between).next.1 = here.peek.1) ∧
    ∀ between : List Cursor.Call, .next ∉ between →
      (here.atEnd = true ↔ (here.after between).next.1.token = .eof) := by
  intro start here answer
  have hstart : start.stream = TokenStream.ofSource source base := Cursor.stream_ofSource _ _
  have hanswer : start.stream.answer = answer := by
    rw [hstart]
    exact funext (TokenStream.answer_eq _)
  have hcount : (calls.filter (· = .next)).count .next = calls.count .next := by
    simp [List.count_filter]
  have hnext : here.next.1 = answer (calls.count .next) := by
    rw [(Cursor.stream_next here).1, Cursor.stream_after, ← hanswer]
    rfl
  refine ⟨?_, ?_, hnext, fun between hbetween => ?_, fun between hbetween => ?_⟩
  · rw [Cursor.taken_eq, hanswer]
  · rw [Cursor.taken_eq, Cursor.taken_eq, hcount]
  · rw [Cursor.next_after_of_notMem _ hbetween, (Cursor.stream_peek here).1,
      (Cursor.stream_peek here).2]
  · rw [Cursor.next_after_of_notMem _ hbetween, Cursor.atEnd_iff]

/-- With only spaces left the end is next, whether or not it has been looked at. -/
example : ((Cursor.ofSource "b0  " .first).after [.peek, .next]).atEnd = true ∧
    ((Cursor.ofSource "b0  " .first).after [.peek, .next, .peek]).atEnd = true := by
  decide +kernel

end RootSignature
