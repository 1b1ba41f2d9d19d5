import Mathlib.Data.List.TakeWhile
import Mathlib.Data.String.Basic
import RootSignature.Token.Stream

/-!
# Lexemes tile their text

The lexemes of a text are the text itself, cut into pieces: `Tiles` says that a text is made of runs
of spaces and of the texts of lexemes, in order and with nothing in between, and that each lexeme
knows where its text starts. `lexemesFrom_tiles` proves it of the scanner, for texts of any
characters, and `TokenStream.answer` is what repeated calls of `TokenStream.next` answer.

`answers_tile_source` puts the two together for a whole source. Since texts are cut between
characters only, every lexeme starts and ends at a valid position of the UTF-8 text, and the slice
between the two positions is the text of the lexeme.
-/

namespace RootSignature

/-! ## Taking lexemes again and again -/

namespace TokenStream

/-- The stream that is left after so many lexemes have been taken. -/
def advance (s : TokenStream) : Nat → TokenStream
  | 0 => s
  | n + 1 => (s.advance n).next.2

/-- The lexeme that is taken after so many others have been taken. -/
def answer (s : TokenStream) (n : Nat) : Lexeme :=
  (s.advance n).next.1

/-- The end stays where it is while lexemes are taken. -/
@[simp] theorem stop_advance (s : TokenStream) (n : Nat) : (s.advance n).stop = s.stop := by
  induction n with
  | zero => rfl
  | succ n ih => exact ih

/-- Lexemes are taken one by one. -/
theorem lexemes_advance (s : TokenStream) (n : Nat) :
    (s.advance n).lexemes = s.lexemes.drop n := by
  induction n with
  | zero => rfl
  | succ n ih =>
      show (s.advance n).lexemes.tail = _
      rw [ih, List.tail_drop]

/-- The lexemes of a stream are answered one by one, and then the end without end. -/
theorem answer_eq (s : TokenStream) (n : Nat) :
    s.answer n = (s.lexemes[n]?).getD (.endAt s.stop) := by
  show (s.advance n).lexemes.headD (.endAt (s.advance n).stop) = _
  rw [stop_advance, lexemes_advance, List.headD_eq_head?_getD, List.head?_drop]

end TokenStream

/-! ## Tilings -/

/-- There is a number for every location of a text that starts at a location. -/
def Location.HasRoomFor (base : Location) (text : List Char) : Prop :=
  base = .unknown ∨ base.raw + byteLength text ≤ unknownRaw

/-- A text that starts so many bytes after a location is tiled by lexemes: it consists of the texts
of the lexemes with spaces before, between and behind them, and every lexeme is at the location
where its text starts. -/
inductive Tiles (base : Location) : Nat → List Char → List Lexeme → Prop
  /-- Only spaces are left. -/
  | spaces {offset : Nat} (n : Nat) : Tiles base offset (List.replicate n ' ') []
  /-- Some spaces, the text of a lexeme, and what follows. -/
  | lexeme {offset : Nat} (n : Nat) {l : Lexeme} {cs : List Char} {ls : List Lexeme} :
      l.token ≠ .eof → l.text ≠ "" → l.location = base.offset (offset + n) →
      Tiles base (offset + n + l.width) cs ls →
      Tiles base offset (List.replicate n ' ' ++ (l.text.toList ++ cs)) (l :: ls)

namespace Tiles

variable {base : Location} {offset : Nat} {cs : List Char} {ls : List Lexeme}

/-- One more space before a tiled text moves every lexeme one byte on. -/
theorem cons_space (h : Tiles base (offset + 1) cs ls) : Tiles base offset (' ' :: cs) ls := by
  cases h with
  | spaces n => exact .spaces (n + 1)
  | @lexeme _ n l cs ls heof hne hloc hrest =>
      have h : offset + 1 + n = offset + (n + 1) := by omega
      rw [h] at hloc hrest
      exact .lexeme (n + 1) heof hne hloc hrest

/-- A lexeme that stands at the start of a text, in front of a tiled text. -/
theorem cons_lexeme {l : Lexeme} (heof : l.token ≠ .eof) (hne : l.text ≠ "")
    (hloc : l.location = base.offset offset) (hrest : Tiles base (offset + l.width) cs ls) :
    Tiles base offset (l.text.toList ++ cs) (l :: ls) :=
  .lexeme 0 heof hne hloc hrest

/-- Spaces take one byte each. -/
theorem byteLength_replicate_space (n : Nat) : byteLength (List.replicate n ' ') = n := by
  induction n with
  | zero => rfl
  | succ n ih =>
      rw [List.replicate_succ, byteLength_cons, ih, Nat.add_comm]
      rfl

/-- A lexeme of a tiling cuts the text in two at its start. The first part is tiled by the lexemes
before it, and the second part begins with its own text. -/
theorem cut (h : Tiles base offset cs ls) {front back : List Lexeme} {l : Lexeme}
    (hls : ls = front ++ l :: back) :
    ∃ before after, cs = before ++ (l.text.toList ++ after) ∧ Tiles base offset before front ∧
      l.location = base.offset (offset + byteLength before) ∧
      Tiles base (offset + byteLength before + l.width) after back := by
  induction h generalizing front with
  | spaces n => simp at hls
  | @lexeme offset n m cs ls heof hne hloc hrest ih =>
      have hn := byteLength_replicate_space n
      cases front with
      | nil =>
          obtain ⟨rfl, rfl⟩ : m = l ∧ ls = back := by simpa using hls
          refine ⟨List.replicate n ' ', cs, rfl, .spaces n, ?_, ?_⟩
          · rw [hn, hloc]
          · rw [hn]
            exact hrest
      | cons m' front =>
          obtain ⟨rfl, rfl⟩ : m = m' ∧ ls = front ++ l :: back := by simpa using hls
          obtain ⟨before, after, rfl, hfront, hloc', hback⟩ := ih rfl
          have hlen : offset + byteLength (List.replicate n ' ' ++ (m.text.toList ++ before)) =
              offset + n + m.width + byteLength before := by
            rw [byteLength_append, byteLength_append, hn, byteLength_toList, Lexeme.width]
            omega
          refine ⟨List.replicate n ' ' ++ (m.text.toList ++ before), after, ?_,
            .lexeme n heof hne hloc hfront, ?_, ?_⟩
          · simp only [List.append_assoc]
          · rw [hlen, hloc']
          · rw [hlen]
            exact hback

/-- No lexeme of a text is the end. -/
theorem ne_eof (h : Tiles base offset cs ls) {l : Lexeme} (hl : l ∈ ls) : l.token ≠ .eof := by
  induction h with
  | spaces n => cases hl
  | lexeme n heof _ _ _ ih =>
      rcases List.mem_cons.1 hl with rfl | hl
      · exact heof
      · exact ih hl

/-- No lexeme of a text is empty. -/
theorem text_ne_empty (h : Tiles base offset cs ls) {l : Lexeme} (hl : l ∈ ls) : l.text ≠ "" := by
  induction h with
  | spaces n => cases hl
  | lexeme n _ hne _ _ ih =>
      rcases List.mem_cons.1 hl with rfl | hl
      · exact hne
      · exact ih hl

/-- A lexeme of a text is one byte wide at least. -/
theorem width_pos (h : Tiles base offset cs ls) {l : Lexeme} (hl : l ∈ ls) : 0 < l.width :=
  Nat.pos_of_ne_zero fun hzero => h.text_ne_empty hl (String.utf8ByteSize_eq_zero_iff.1 hzero)

/-- The lexemes of a tiling stand within its text. -/
theorem raw_location (h : Tiles base offset cs ls) (hbase : base ≠ .unknown)
    (hroom : base.raw + (offset + byteLength cs) ≤ Location.unknownRaw) {l : Lexeme}
    (hl : l ∈ ls) :
    base.raw + offset ≤ l.location.raw ∧
      l.location.raw + l.width ≤ base.raw + offset + byteLength cs := by
  obtain ⟨front, back, hls⟩ := List.append_of_mem hl
  obtain ⟨before, after, rfl, -, hloc, -⟩ := h.cut hls
  have hwidth : byteLength l.text.toList = l.width := byteLength_toList l.text
  rw [byteLength_append, byteLength_append, hwidth] at hroom ⊢
  have hraw : l.location.raw = base.raw + (offset + byteLength before) := by
    rw [hloc, Location.raw_offset_of_le hbase (by omega)]
  omega

/-- What stands behind a lexeme, or at the end, is located behind the text of the lexeme. -/
theorem raw_location_behind (h : Tiles base offset cs ls) (hbase : base ≠ .unknown)
    (hroom : base.raw + (offset + byteLength cs) ≤ Location.unknownRaw) {l m : Lexeme}
    {tail : List Lexeme} (hsuffix : l :: tail <:+ ls)
    (hm : m ∈ tail ++ [.endAt (base.offset (offset + byteLength cs))]) :
    l.location.raw + l.width ≤ m.location.raw := by
  obtain ⟨front, hls⟩ := hsuffix
  rcases List.mem_append.1 hm with htail | hend
  · obtain ⟨before, after, rfl, -, hloc, hafter⟩ := h.cut hls.symm
    have hwidth : byteLength l.text.toList = l.width := byteLength_toList l.text
    rw [byteLength_append, byteLength_append, hwidth] at hroom
    have hraw : l.location.raw = base.raw + (offset + byteLength before) := by
      rw [hloc, Location.raw_offset_of_le hbase (by omega)]
    have hge := (hafter.raw_location hbase (by omega) htail).1
    omega
  · have hmem : l ∈ ls := hls ▸ List.mem_append_right _ (List.mem_cons_self ..)
    rw [List.mem_singleton.1 hend, Lexeme.endAt, Location.raw_offset_of_le hbase hroom,
      ← Nat.add_assoc]
    exact (h.raw_location hbase hroom hmem).2

end Tiles

/-! ## The scanner tiles -/

/-- The lexemes of a text tile it. -/
theorem lexemesFrom_tiles (base : Location) (offset : Nat) (cs : List Char) :
    Tiles base offset cs (lexemesFrom base offset cs) := by
  fun_induction lexemesFrom base offset cs with
  | case1 offset => exact .spaces 0
  | case2 offset cs ih => exact ih.cons_space
  | case3 offset c cs hc first ih =>
      have htext : first.text ++ first.rest = c :: cs := FirstToken.text_append_rest c cs
      have heof : first.token ≠ .eof := FirstToken.token_scan_ne_eof c cs
      have hne : first.text ≠ [] := FirstToken.text_ne_nil c cs
      -- From here on only these three facts about the first token count.
      clear_value first
      have htiles := Tiles.cons_lexeme
        (l := ⟨first.token, String.ofList first.text, base.offset offset⟩)
        heof (by simpa using hne) rfl (by rwa [Lexeme.width, utf8ByteSize_ofList])
      rw [← htext]
      simpa using htiles

/-- If there is a number for every location of a source, what stands behind a lexeme of it, or is
the end, is located behind the text of the lexeme. -/
theorem TokenStream.raw_location_behind {source : String} {base : Location}
    (hbase : base ≠ .unknown) (hroom : base.HasRoomFor (readableText source)) {l m : Lexeme}
    {tail : List Lexeme} (hsuffix : l :: tail <:+ (ofSource source base).lexemes)
    (hm : m ∈ tail ++ [.endAt (ofSource source base).stop]) :
    l.location.raw < m.location.raw ∧ l.location.raw + l.width ≤ m.location.raw := by
  have htiles := lexemesFrom_tiles base 0 (readableText source)
  have hwidth := htiles.width_pos (hsuffix.mem (List.mem_cons_self ..))
  have hbehind := htiles.raw_location_behind hbase (by simpa using hroom.resolve_left hbase)
    hsuffix (by rwa [Nat.zero_add])
  exact ⟨Nat.lt_of_lt_of_le (Nat.lt_add_of_pos_right hwidth) hbehind, hbehind⟩

/-! ## The text that is read -/

/-- A source without NUL is read to its end. -/
theorem readableText_eq_toList {a : String} (ha : '\x00' ∉ a.toList) :
    readableText a = a.toList := by
  rw [readableText, List.takeWhile_eq_self_iff]
  intro c hc
  exact decide_eq_true fun hnul => ha (hnul ▸ hc)

/-- A text without NUL is read up to whatever stands behind it. -/
theorem readableText_append_left {a : String} (ha : '\x00' ∉ a.toList) (b : String) :
    readableText (a ++ b) = a.toList ++ readableText b := by
  rw [readableText, String.toList_append, List.takeWhile_append_of_pos]
  · rfl
  · exact fun c hc => decide_eq_true fun hnul => ha (hnul ▸ hc)

/-- What is read of a source has no NUL. -/
theorem nul_notMem_readableText (source : String) : '\x00' ∉ readableText source := by
  intro hmem
  have hne := List.mem_takeWhile_imp hmem
  simp at hne

/-- No lexeme of a source has a NUL. -/
theorem nul_notMem_text {source : String} {base : Location} {l : Lexeme}
    (hl : l ∈ (TokenStream.ofSource source base).lexemes) : '\x00' ∉ l.text.toList := by
  obtain ⟨front, back, hls⟩ := List.append_of_mem hl
  obtain ⟨before, after, hcs, -⟩ := (lexemesFrom_tiles base 0 (readableText source)).cut hls
  intro hmem
  refine nul_notMem_readableText source ?_
  rw [hcs]
  exact List.mem_append_right _ (List.mem_append_left _ hmem)

/-! ## Positions in the UTF-8 text -/

/-- Both ways to count the bytes of a text agree. -/
theorem utf8Len_eq_byteLength (cs : List Char) : String.utf8Len cs = byteLength cs := by
  rw [← String.utf8ByteSize_ofList, utf8ByteSize_ofList]

/-- The end of the first part of a text is a position between two characters. -/
theorem isValid_byteLength (before after : List Char) :
    (⟨byteLength before⟩ : String.Pos.Raw).IsValid (String.ofList (before ++ after)) := by
  have h : (String.ofList before).rawEndPos = ⟨byteLength before⟩ := by
    rw [String.rawEndPos_ofList, utf8Len_eq_byteLength]
  rw [String.ofList_append, ← h]
  exact String.Pos.Raw.isValid_rawEndPos.append_right _

/-- The slice between the ends of the first and of the second part of a text is the second part. -/
theorem extract_byteLength (before middle after : List Char) :
    String.Pos.Raw.extract (String.ofList (before ++ (middle ++ after))) ⟨byteLength before⟩
      ⟨byteLength before + byteLength middle⟩ = String.ofList middle := by
  rw [← List.append_assoc, ← utf8Len_eq_byteLength, ← utf8Len_eq_byteLength]
  exact String.extract_of_valid before middle after

/-- The lexemes of a source before the end are finitely many and tile what is read of it, and after
them the end is answered without end. Each starts and ends between two characters, and the slice of
the source between these positions is its text. It is located where it starts: the number of its
location is that of the first byte and as many more, if there is a number for every location. -/
theorem answers_tile_source (source : String) (base : Location) :
    ∃ ls : List Lexeme,
      (∀ i, (TokenStream.ofSource source base).answer i =
        (ls[i]?).getD (.endAt (base.offset (byteLength (readableText source))))) ∧
      (∀ l ∈ ls, l.token ≠ .eof ∧ l.text ≠ "") ∧
      Tiles base 0 (readableText source) ls ∧
      ∀ front l back, ls = front ++ l :: back → ∃ before after start : _,
        readableText source = before ++ (l.text.toList ++ after) ∧ Tiles base 0 before front ∧
        start = byteLength before ∧ l.location = base.offset start ∧
        (base ≠ .unknown → base.HasRoomFor (readableText source) →
          l.location.raw = base.raw + start) ∧
        (⟨start⟩ : String.Pos.Raw).IsValid (String.ofList (readableText source)) ∧
        (⟨start + l.width⟩ : String.Pos.Raw).IsValid (String.ofList (readableText source)) ∧
        String.Pos.Raw.extract (String.ofList (readableText source)) ⟨start⟩ ⟨start + l.width⟩ =
          l.text := by
  have htiles := lexemesFrom_tiles base 0 (readableText source)
  refine ⟨_, (TokenStream.ofSource source base).answer_eq, ?_, htiles, ?_⟩
  · exact fun l hl => ⟨htiles.ne_eof hl, htiles.text_ne_empty hl⟩
  · intro front l back hls
    obtain ⟨before, after, hcs, hfront, hloc, -⟩ := htiles.cut hls
    have hwidth : l.width = byteLength l.text.toList := (byteLength_toList l.text).symm
    rw [Nat.zero_add] at hloc
    refine ⟨before, after, byteLength before, hcs, hfront, rfl, hloc, fun hbase hroom => ?_, ?_, ?_,
      ?_⟩
    · have hle := hroom.resolve_left hbase
      rw [hcs, byteLength_append] at hle
      rw [hloc, Location.raw_offset_of_le hbase (by omega)]
    · rw [hcs]
      exact isValid_byteLength before _
    · rw [hcs, hwidth, ← byteLength_append, ← List.append_assoc]
      exact isValid_byteLength (before ++ l.text.toList) after
    · rw [hcs, hwidth, extract_byteLength, String.ofList_toList]

end RootSignature
