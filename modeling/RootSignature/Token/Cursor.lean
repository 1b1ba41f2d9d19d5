import RootSignature.Token.Stream

/-!
# Cursors

A cursor reads the lexemes of a source one by one, each when it is first asked for. A lexeme that
has been looked at is kept until it is taken, so a cursor has at most one lexeme that has been read
ahead, and what it has read of the source can end behind that lexeme.
-/

namespace RootSignature

/-! ## Reading the next lexeme -/

/-- The part of a source that has not been read. -/
structure Unread where
  /-- The location of the first byte of the source. -/
  base : Location
  /-- The number of bytes before the part. -/
  offset : Nat
  /-- The characters of the part. -/
  text : List Char

namespace Unread

/-- The part behind the spaces that it starts with. -/
def skipSpaces (u : Unread) : Unread :=
  { u with
    offset := u.offset + byteLength (u.text.takeWhile (· = ' '))
    text := u.text.dropWhile (· = ' ') }

/-- Reads the next lexeme. Behind the last one the end is read again and again. -/
def read (u : Unread) : Lexeme × Unread :=
  let start := u.skipSpaces
  match start.text with
  | [] => (.endAt (start.base.offset start.offset), start)
  | c :: cs =>
    let first := FirstToken.scan c cs
    (⟨first.token, String.ofList first.text, start.base.offset start.offset⟩,
      { start with offset := start.offset + byteLength first.text, text := first.rest })

/-- The end is read only where nothing is left, and it is located there. -/
theorem read_eof (u : Unread) (h : u.read.1.token = .eof) :
    u.read.2.text = [] ∧ u.read.1 = .endAt (u.read.2.base.offset u.read.2.offset) := by
  revert h
  unfold read
  dsimp only
  split
  · next htext => exact fun _ => ⟨htext, rfl⟩
  · next c cs _ => exact fun h => absurd h (FirstToken.token_scan_ne_eof c cs)

end Unread

/-! ## Taking lexemes and looking at them -/

/-- A place in a source, up to which lexemes have been taken. -/
structure Cursor where
  /-- What has not been read of the source. -/
  unread : Unread
  /-- The lexeme that has been read and not taken, if there is one. -/
  lookahead : Option Lexeme
  /-- If the end has been read ahead, nothing is left to read. -/
  lookahead_eof : ∀ l ∈ lookahead, l.token = .eof →
    unread.text = [] ∧ l = .endAt (unread.base.offset unread.offset)

namespace Cursor

/-- The start of a source whose first byte is at a location. -/
def ofSource (source : String) (base : Location) : Cursor where
  unread := ⟨base, 0, readableText source⟩
  lookahead := none
  lookahead_eof _ h := nomatch h

/-- Takes the next lexeme. -/
def next (c : Cursor) : Lexeme × Cursor :=
  match c.lookahead with
  | some l => (l, ⟨c.unread, none, fun _ h => nomatch h⟩)
  | none => (c.unread.read.1, ⟨c.unread.read.2, none, fun _ h => nomatch h⟩)

/-- The next lexeme, which is read now if need be and is not taken. -/
def peek (c : Cursor) : Lexeme × Cursor :=
  match c.lookahead with
  | some l => (l, c)
  | none =>
    (c.unread.read.1,
      ⟨c.unread.read.2, some c.unread.read.1, fun _ h => Option.some.inj h ▸ c.unread.read_eof⟩)

/-- No lexeme is left before the end. Nothing is read to find that out. -/
def atEnd (c : Cursor) : Bool :=
  match c.lookahead with
  | some l => l.token = .eof
  | none => c.unread.skipSpaces.text.isEmpty

end Cursor

end RootSignature
