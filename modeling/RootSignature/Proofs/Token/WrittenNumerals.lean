import RootSignature.Proofs.Token.Spelled

/-!
# Numerals and their texts

A numeral is written if each of its parts has the characters that it can have
(`Numeral.IsWritten`). All that is scanned is written, and a text is that of one written numeral at
most (`Numeral.toList_injective`): each part ends where the characters of the next one begin.

For the same reason a well-formed numeral is scanned again from its text, if there is room for it
and what follows can not be taken for a part of it (`Numeral.scan_toList_append`).
-/

namespace RootSignature

/-! ## Starts of texts -/

/-- The text is empty or starts with a character of a kind. -/
def StartsWith (p : Char → Prop) (cs : List Char) : Prop :=
  ∀ c ∈ cs.head?, p c

/-- A condition on the first character may be loosened. -/
theorem StartsWith.mono {p q : Char → Prop} {cs : List Char} (h : StartsWith p cs)
    (hpq : ∀ c, p c → q c) : StartsWith q cs :=
  fun c hc => hpq c (h c hc)

/-- Two texts one after the other start with the first character of either. -/
theorem StartsWith.append {p : Char → Prop} {as bs : List Char} (ha : StartsWith p as)
    (hb : StartsWith p bs) : StartsWith p (as ++ bs) := by
  cases as with
  | nil => exact hb
  | cons a as => exact ha

/-- A condition on all characters is one on the first of them. -/
theorem startsWith_of_forall {p : Char → Prop} {cs : List Char} (h : ∀ c ∈ cs, p c) :
    StartsWith p cs :=
  fun c hc => h c (List.mem_of_mem_head? hc)

theorem startsWith_cons {p : Char → Prop} {c : Char} (h : p c) (cs : List Char) :
    StartsWith p (c :: cs) := by
  rintro _ ⟨⟩
  exact h

section
variable {p : Char → Bool} {as rest : List Char}

/-- Nothing is taken off a text that starts with another character. -/
theorem takeWhile_eq_nil_of_startsWith (h : StartsWith (p · = false) rest) :
    rest.takeWhile p = [] := by
  cases rest with
  | nil => rfl
  | cons c rest => exact List.takeWhile_cons_of_neg (by simp [h c rfl])

/-- All characters of a kind are taken up to one that is of another kind. -/
theorem takeWhile_append_of_startsWith (ha : ∀ a ∈ as, p a = true)
    (hrest : StartsWith (p · = false) rest) : (as ++ rest).takeWhile p = as := by
  rw [List.takeWhile_append_of_pos ha, takeWhile_eq_nil_of_startsWith hrest, List.append_nil]

/-- A text is cut in one way only where a run of characters of a kind ends. -/
theorem append_inj_of_startsWith {as' rest' : List Char} (ha : ∀ a ∈ as, p a = true)
    (ha' : ∀ a ∈ as', p a = true) (hrest : StartsWith (p · = false) rest)
    (hrest' : StartsWith (p · = false) rest') (h : as ++ rest = as' ++ rest') :
    as = as' ∧ rest = rest' := by
  have has : as = as' := by
    rw [← takeWhile_append_of_startsWith ha hrest, h, takeWhile_append_of_startsWith ha' hrest']
  exact ⟨has, List.append_cancel_left (has ▸ h)⟩

theorem option_eq_of_toList_eq {o o' : Option Char} (h : o.toList = o'.toList) : o = o' := by
  cases o <;> cases o' <;> simp_all

/-- A character that may be missing is told from what follows by its kind. -/
theorem toList_append_inj_of_startsWith {o o' : Option Char} {rest' : List Char}
    (ho : ∀ c ∈ o, p c = true) (ho' : ∀ c ∈ o', p c = true)
    (hrest : StartsWith (p · = false) rest) (hrest' : StartsWith (p · = false) rest')
    (h : o.toList ++ rest = o'.toList ++ rest') : o = o' ∧ rest = rest' := by
  obtain ⟨hlist, hrests⟩ := append_inj_of_startsWith (fun c hc => ho c (Option.mem_toList.1 hc))
    (fun c hc => ho' c (Option.mem_toList.1 hc)) hrest hrest' h
  exact ⟨option_eq_of_toList_eq hlist, hrests⟩

/-- A character is taken back off the text that it has been put in front of. -/
theorem takeIf_append {o : Option Char} (ho : ∀ c ∈ o, p c = true)
    (hrest : StartsWith (p · = false) rest) : takeIf p (o.toList ++ rest) = (o, rest) := by
  cases o with
  | some c => exact takeIf_of_pos (ho c rfl) rest
  | none =>
      cases rest with
      | nil => rfl
      | cons c rest => simp [takeIf, hrest c rfl]

end

/-- Digits are taken back off the text that they have been put in front of, if there is room. -/
theorem takeDigits_append {room : Nat} {ds rest : List Char} (hds : ∀ d ∈ ds, d.isDigit = true)
    (hroom : ds.length ≤ room) (hrest : StartsWith (·.isDigit = false) rest) :
    takeDigits room (ds ++ rest) = (ds, rest) := by
  have htail : StartsWith (·.isDigit = false) (rest.take (room - ds.length)) := by
    intro c hc
    refine hrest c ?_
    cases hroom' : room - ds.length with
    | zero => simp [hroom'] at hc
    | succ n => simpa [hroom', List.head?_take] using hc
  have htake : ((ds ++ rest).take room).takeWhile Char.isDigit = ds := by
    rw [List.take_append, List.take_of_length_le hroom, takeWhile_append_of_startsWith hds htail]
  simp only [takeDigits, htake, List.drop_left]

/-! ## Written numerals -/

/-- Each part of a significand has the characters that it can have. -/
structure Significand.IsWritten (s : Significand) : Prop where
  sign : ∀ c ∈ s.sign, isSign c = true
  whole : ∀ c ∈ s.whole, c.isDigit = true
  fraction : ∀ ds ∈ s.fraction, ∀ c ∈ ds, c.isDigit = true

/-- Each part of an exponent has the characters that it can have. -/
structure Exponent.IsWritten (e : Exponent) : Prop where
  mark : isMark e.mark = true
  sign : ∀ c ∈ e.sign, Significand.isSign c = true
  digits : ∀ c ∈ e.digits, c.isDigit = true

/-- Each part of a numeral has the characters that it can have. -/
structure Numeral.IsWritten (n : Numeral) : Prop where
  significand : n.significand.IsWritten
  exponent : ∀ e ∈ n.exponent, e.IsWritten
  suffix : ∀ c ∈ n.suffix, isSuffix c = true

/-- The character that is taken, if there is one, is of the kind that is asked for. -/
theorem of_mem_takeIf_fst {p : Char → Bool} {cs : List Char} {c : Char} (h : c ∈ (takeIf p cs).1) :
    p c = true :=
  of_mem_takeIf (Option.mem_toList.2 h)

/-- What is scanned as a significand is written. -/
theorem Significand.isWritten_scan (cs : List Char) : (scan cs).1.IsWritten := by
  unfold scan
  dsimp only
  split
  · exact ⟨fun c hc => of_mem_takeIf_fst hc, fun c hc => isDigit_of_mem_takeDigits hc, nofun⟩
  · refine ⟨fun c hc => of_mem_takeIf_fst hc, fun c hc => isDigit_of_mem_takeDigits hc, ?_⟩
    rintro _ ⟨⟩ c hc
    exact isDigit_of_mem_takeDigits hc

/-- What is scanned as an exponent is written. -/
theorem Exponent.isWritten_scan? {before : Nat} {cs : List Char} {e : Exponent}
    (h : e ∈ (scan? before cs).1) : e.IsWritten := by
  revert h
  unfold scan?
  split
  · exact nofun
  · next mark afterMark hmark =>
      rintro ⟨⟩
      have hmem : mark ∈ (takeIf isMark cs).1 := by
        rw [hmark]
        rfl
      exact ⟨of_mem_takeIf_fst hmem, fun c hc => of_mem_takeIf_fst hc,
        fun c hc => isDigit_of_mem_takeDigits hc⟩

/-- What is scanned as a numeral is written. -/
theorem Numeral.isWritten_scan (cs : List Char) : (scan cs).1.IsWritten := by
  have hsignificand := Significand.isWritten_scan cs
  unfold scan
  dsimp only
  split
  · exact ⟨hsignificand, nofun, nofun⟩
  · split
    · exact ⟨hsignificand, fun e he => Exponent.isWritten_scan? he, nofun⟩
    · exact ⟨hsignificand, fun e he => Exponent.isWritten_scan? he,
        fun c hc => of_mem_takeIf_fst hc⟩

/-! ## Where the parts of a numeral end -/

/-- The mark of an exponent is no other part of a numeral. -/
theorem Exponent.of_isMark {c : Char} (h : isMark c = true) :
    c.isDigit = false ∧ Significand.isSign c = false ∧ c ≠ '.' ∧ Numeral.isSuffix c = false := by
  have hc : c = 'e' ∨ c = 'E' := by simpa [isMark] using h
  rcases hc with rfl | rfl <;> decide

/-- A suffix is no other part of a numeral. -/
theorem Numeral.of_isSuffix {c : Char} (h : isSuffix c = true) :
    c.isDigit = false ∧ Significand.isSign c = false ∧ c ≠ '.' ∧ Exponent.isMark c = false := by
  have hc : c = 'f' ∨ c = 'F' := by simpa [isSuffix] using h
  rcases hc with rfl | rfl <;> decide

/-- The text of an exponent, if there is one, starts with its mark. -/
theorem Exponent.startsWith_text {e : Option Exponent} (he : ∀ e' ∈ e, e'.IsWritten) :
    StartsWith (isMark · = true) (e.elim [] toList) := by
  cases e with
  | none => exact nofun
  | some e => exact startsWith_cons (he e rfl).mark _

/-- The text of a suffix, if there is one, starts with it. -/
theorem Numeral.startsWith_suffix {n : Numeral} (hn : n.IsWritten) :
    StartsWith (isSuffix · = true) n.suffix.toList :=
  startsWith_of_forall fun c hc => hn.suffix c (Option.mem_toList.1 hc)

/-! ## One numeral for each text -/

/-- A significand ends where no character of it follows. -/
theorem Significand.toList_append_inj {s s' : Significand} (hs : s.IsWritten) (hs' : s'.IsWritten)
    {rest rest' : List Char}
    (hrest : StartsWith (fun c => c.isDigit = false ∧ isSign c = false ∧ c ≠ '.') rest)
    (hrest' : StartsWith (fun c => c.isDigit = false ∧ isSign c = false ∧ c ≠ '.') rest')
    (h : s.toList ++ rest = s'.toList ++ rest') : s = s' ∧ rest = rest' := by
  obtain ⟨sign, whole, fraction⟩ := s
  obtain ⟨sign', whole', fraction'⟩ := s'
  have hfraction (f : Option (List Char)) {tail : List Char}
      (htail : StartsWith (fun c => c.isDigit = false ∧ isSign c = false ∧ c ≠ '.') tail) :
      StartsWith (fun c => c.isDigit = false ∧ isSign c = false)
        (f.elim [] ('.' :: ·) ++ tail) := by
    cases f with
    | none => exact htail.mono fun c hc => ⟨hc.1, hc.2.1⟩
    | some ds => exact startsWith_cons ⟨rfl, rfl⟩ _
  have hsignless {whole : List Char} (hwhole : ∀ c ∈ whole, c.isDigit = true) {tail : List Char}
      (htail : StartsWith (fun c => c.isDigit = false ∧ isSign c = false) tail) :
      StartsWith (isSign · = false) (whole ++ tail) :=
    (startsWith_of_forall fun c hc => isSign_of_isDigit (hwhole c hc)).append
      (htail.mono fun _ hc => hc.2)
  simp only [toList, List.append_assoc] at h
  obtain ⟨rfl, hafterSign⟩ := toList_append_inj_of_startsWith hs.sign hs'.sign
    (hsignless hs.whole (hfraction _ hrest)) (hsignless hs'.whole (hfraction _ hrest')) h
  obtain ⟨rfl, hafterWhole⟩ := append_inj_of_startsWith hs.whole hs'.whole
    ((hfraction _ hrest).mono fun _ hc => hc.1) ((hfraction _ hrest').mono fun _ hc => hc.1)
    hafterSign
  clear h hafterSign
  cases fraction with
  | none =>
      cases fraction' with
      | none => exact ⟨rfl, hafterWhole⟩
      | some ds =>
          obtain rfl : rest = '.' :: (ds ++ rest') := hafterWhole
          exact absurd rfl (hrest _ rfl).2.2
  | some ds =>
      cases fraction' with
      | none =>
          obtain rfl : '.' :: (ds ++ rest) = rest' := hafterWhole
          exact absurd rfl (hrest' _ rfl).2.2
      | some ds' =>
          obtain ⟨rfl, rfl⟩ := append_inj_of_startsWith (hs.fraction ds rfl) (hs'.fraction ds' rfl)
            (hrest.mono fun _ hc => hc.1) (hrest'.mono fun _ hc => hc.1)
            (List.cons.inj hafterWhole).2
          exact ⟨rfl, rfl⟩

/-- An exponent ends where no character of it follows, and so does a missing one. -/
theorem Exponent.toList_append_inj {e e' : Option Exponent} (he : ∀ x ∈ e, x.IsWritten)
    (he' : ∀ x ∈ e', x.IsWritten) {rest rest' : List Char}
    (hrest : StartsWith (Numeral.isSuffix · = true) rest)
    (hrest' : StartsWith (Numeral.isSuffix · = true) rest')
    (h : e.elim [] toList ++ rest = e'.elim [] toList ++ rest') : e = e' ∧ rest = rest' := by
  have hmark {x : Exponent} (hx : x.IsWritten) {tail : List Char}
      (htail : StartsWith (Numeral.isSuffix · = true) (x.mark :: tail)) : False := by
    have hsuffix := (of_isMark hx.mark).2.2.2
    rw [htail x.mark rfl] at hsuffix
    cases hsuffix
  have hsignless {ds : List Char} (hds : ∀ c ∈ ds, c.isDigit = true) {tail : List Char}
      (htail : StartsWith (Numeral.isSuffix · = true) tail) :
      StartsWith (Significand.isSign · = false) (ds ++ tail) :=
    (startsWith_of_forall fun c hc => isSign_of_isDigit (hds c hc)).append
      (htail.mono fun _ hc => (Numeral.of_isSuffix hc).2.1)
  cases e with
  | none =>
      cases e' with
      | none => exact ⟨rfl, h⟩
      | some x' =>
          obtain rfl : rest = _ := h
          exact (hmark (he' x' rfl) hrest).elim
  | some x =>
      cases e' with
      | none =>
          obtain rfl : _ = rest' := h
          exact (hmark (he x rfl) hrest').elim
      | some x' =>
          obtain ⟨mark, sign, digits⟩ := x
          obtain ⟨mark', sign', digits'⟩ := x'
          have hx := he _ rfl
          have hx' := he' _ rfl
          simp only [Option.elim_some, toList, List.cons_append, List.append_assoc] at h
          obtain ⟨rfl, hafterMark⟩ := List.cons.inj h
          obtain ⟨rfl, hafterSign⟩ := toList_append_inj_of_startsWith hx.sign hx'.sign
            (hsignless hx.digits hrest) (hsignless hx'.digits hrest') hafterMark
          obtain ⟨rfl, rfl⟩ := append_inj_of_startsWith hx.digits hx'.digits
            (hrest.mono fun _ hc => (Numeral.of_isSuffix hc).1)
            (hrest'.mono fun _ hc => (Numeral.of_isSuffix hc).1) hafterSign
          exact ⟨rfl, rfl⟩

/-- A text is that of one written numeral at most. -/
theorem Numeral.toList_injective {n n' : Numeral} (hn : n.IsWritten) (hn' : n'.IsWritten)
    (h : n.toList = n'.toList) : n = n' := by
  have hbehind {n : Numeral} (hn : n.IsWritten) :
      StartsWith (fun c => c.isDigit = false ∧ Significand.isSign c = false ∧ c ≠ '.')
        (n.exponent.elim [] Exponent.toList ++ n.suffix.toList) :=
    ((Exponent.startsWith_text hn.exponent).mono fun c hc =>
        ⟨(Exponent.of_isMark hc).1, (Exponent.of_isMark hc).2.1, (Exponent.of_isMark hc).2.2.1⟩).append
      ((startsWith_suffix hn).mono fun c hc =>
        ⟨(of_isSuffix hc).1, (of_isSuffix hc).2.1, (of_isSuffix hc).2.2.1⟩)
  have hsuffix := startsWith_suffix hn
  have hsuffix' := startsWith_suffix hn'
  have hexponent := hbehind hn
  have hexponent' := hbehind hn'
  obtain ⟨significand, exponent, suffix⟩ := n
  obtain ⟨significand', exponent', suffix'⟩ := n'
  simp only [toList, List.append_assoc] at h
  obtain ⟨rfl, hafter⟩ := Significand.toList_append_inj hn.significand hn'.significand hexponent
    hexponent' h
  obtain ⟨rfl, hsuffixes⟩ := Exponent.toList_append_inj hn.exponent hn'.exponent hsuffix hsuffix'
    hafter
  obtain rfl : suffix = suffix' := option_eq_of_toList_eq hsuffixes
  rfl

/-! ## Reading a text again -/

/-- A significand with a digit is scanned from its text, if there is room for it and no character of
it follows. -/
theorem Significand.scan_toList_append {s : Significand} (hs : s.IsWritten)
    (hdigits : s.digits ≠ []) (hroom : s.toList.length ≤ maxTokenLength) {rest : List Char}
    (hrest : StartsWith (fun c => c.isDigit = false ∧ c ≠ '.') rest) :
    scan (s.toList ++ rest) = (s, rest) := by
  obtain ⟨sign, whole, fraction⟩ := s
  have hwhole : ∀ c ∈ whole, c.isDigit = true := hs.whole
  have hpoint : StartsWith (·.isDigit = false) (fraction.elim [] ('.' :: ·) ++ rest) := by
    cases fraction with
    | none => exact hrest.mono fun c hc => hc.1
    | some ds => exact startsWith_cons (by decide) _
  have hsign : StartsWith (isSign · = false) (whole ++ (fraction.elim [] ('.' :: ·) ++ rest)) := by
    cases whole with
    | cons d whole => exact startsWith_cons (isSign_of_isDigit (hwhole d (by simp))) _
    | nil =>
        cases fraction with
        | none => simp [digits] at hdigits
        | some ds => exact startsWith_cons (by decide) _
  simp only [toList, List.length_append] at hroom
  simp only [scan, toList, List.append_assoc]
  rw [takeIf_append hs.sign hsign]
  dsimp only
  rw [takeDigits_append hwhole (by omega) hpoint]
  dsimp only
  cases fraction with
  | none =>
      have hend : takeIf (· = '.') rest = (none, rest) :=
        takeIf_append (o := none) (by simp) (hrest.mono fun c hc => decide_eq_false hc.2)
      rw [Option.elim_none, List.nil_append, hend]
  | some ds =>
      have hds : ∀ c ∈ ds, c.isDigit = true := hs.fraction ds rfl
      simp only [Option.elim_some, List.length_cons] at hroom
      rw [Option.elim_some, List.cons_append, takeIf_of_pos (by simp)]
      dsimp only
      rw [takeDigits_append hds (by omega) (hrest.mono fun c hc => hc.1)]

/-- An exponent with a digit is scanned from its text, if there is room for it and no character of
it follows, and so is a missing one. -/
theorem Exponent.scan?_toList_append {e : Option Exponent} (he : ∀ x ∈ e, x.IsWritten)
    (hdigits : ∀ x ∈ e, x.digits ≠ []) {before : Nat}
    (hroom : before + (e.elim [] toList).length ≤ maxTokenLength) {rest : List Char}
    (hrest : StartsWith (fun c => c.isDigit = false ∧ isMark c = false) rest) :
    scan? before (e.elim [] toList ++ rest) = (e, rest) := by
  cases e with
  | none =>
      have hmark : takeIf isMark rest = (none, rest) :=
        takeIf_append (o := none) (by simp) (hrest.mono fun c hc => hc.2)
      simp only [scan?, Option.elim_none, List.nil_append, hmark]
  | some x =>
      obtain ⟨mark, sign, digits⟩ := x
      have hx := he _ rfl
      have hds : ∀ c ∈ digits, c.isDigit = true := hx.digits
      have hsign : StartsWith (Significand.isSign · = false) (digits ++ rest) := by
        cases digits with
        | nil => exact absurd rfl (hdigits _ rfl)
        | cons d ds => exact startsWith_cons (isSign_of_isDigit (hds d (by simp))) _
      simp only [Option.elim_some, toList, List.length_cons, List.length_append] at hroom
      simp only [scan?, Option.elim_some, toList, List.cons_append, List.append_assoc,
        takeIf_of_pos hx.mark]
      rw [takeIf_append hx.sign hsign]
      dsimp only
      rw [takeDigits_append hds (by omega) (hrest.mono fun c hc => hc.1)]

/-- A numeral is well-formed if no part that asks for digits lacks them. -/
theorem Numeral.isWellFormed_iff {n : Numeral} :
    n.isWellFormed = true ↔ n.significand.digits ≠ [] ∧ ∀ e ∈ n.exponent, e.digits ≠ [] := by
  simp [isWellFormed, Option.all_eq_true]

/-- A character that can not continue a numeral that ends in a digit, a point or a suffix. -/
def Numeral.endsBefore (c : Char) : Bool :=
  !c.isDigit && !c.isAlpha && c ≠ '.'

/-- A character that ends a numeral is no part of it. -/
theorem Numeral.of_endsBefore {c : Char} (h : endsBefore c = true) :
    c.isDigit = false ∧ c ≠ '.' ∧ Exponent.isMark c = false ∧ isSuffix c = false := by
  have hc : (c.isDigit = false ∧ c.isAlpha = false) ∧ c ≠ '.' := by simpa [endsBefore] using h
  have hne (d : Char) (hd : d.isAlpha = true) : c ≠ d := by
    rintro rfl
    rw [hd] at hc
    cases hc.1.2
  exact ⟨hc.1.1, hc.2, by simp [Exponent.isMark, hne], by simp [isSuffix, hne]⟩

/-- A well-formed numeral is scanned from its text, if there is room for it and what follows can not
continue it. -/
theorem Numeral.scan_toList_append {n : Numeral} (hn : n.IsWritten)
    (hwell : n.isWellFormed = true) (hroom : n.toList.length ≤ maxTokenLength) {rest : List Char}
    (hrest : StartsWith (endsBefore · = true) rest) : scan (n.toList ++ rest) = (n, rest) := by
  obtain ⟨hdigits, hexponent⟩ := isWellFormed_iff.1 hwell
  have hafterExponent :
      StartsWith (fun c => c.isDigit = false ∧ c ≠ '.' ∧ Exponent.isMark c = false)
        (n.suffix.toList ++ rest) :=
    ((startsWith_suffix hn).mono fun c hc =>
        ⟨(of_isSuffix hc).1, (of_isSuffix hc).2.2.1, (of_isSuffix hc).2.2.2⟩).append
      (hrest.mono fun c hc => ⟨(of_endsBefore hc).1, (of_endsBefore hc).2.1, (of_endsBefore hc).2.2.1⟩)
  have hafterSignificand : StartsWith (fun c => c.isDigit = false ∧ c ≠ '.')
      (n.exponent.elim [] Exponent.toList ++ (n.suffix.toList ++ rest)) :=
    ((Exponent.startsWith_text hn.exponent).mono fun c hc =>
        ⟨(Exponent.of_isMark hc).1, (Exponent.of_isMark hc).2.2.1⟩).append
      (hafterExponent.mono fun c hc => ⟨hc.1, hc.2.1⟩)
  simp only [toList, List.length_append] at hroom
  simp only [scan, toList, List.append_assoc]
  rw [Significand.scan_toList_append hn.significand hdigits (by omega) hafterSignificand]
  dsimp only
  rw [if_neg (by simpa using hdigits),
    Exponent.scan?_toList_append hn.exponent hexponent (by omega)
      (hafterExponent.mono fun c hc => ⟨hc.1, hc.2.2⟩)]
  dsimp only
  rw [if_neg (by simpa [Option.any_eq_true] using hexponent),
    takeIf_append hn.suffix (hrest.mono fun c hc => (of_endsBefore hc).2.2.2)]

/-! ## Numerals as lexemes -/

/-- A character that a numeral starts with is no delimiter. -/
theorem Numeral.of_startsWith {c : Char} (h : startsWith c = true) : isDelimiter c = false := by
  by_contra hc
  rcases isDelimiter_iff.1 (by simpa using hc) with rfl | rfl | rfl | rfl | rfl | rfl <;> cases h

/-- What starts as a numeral is scanned as a numeral. -/
theorem FirstToken.scan_numeral {c : Char} (h : Numeral.startsWith c = true) (cs : List Char) :
    scan c cs = ⟨(Numeral.scan (c :: cs)).1.token, (Numeral.scan (c :: cs)).1.toList,
      (Numeral.scan (c :: cs)).2⟩ := by
  have hmark := (of_not_isDelimiter (Numeral.of_startsWith h)).2
  simp [scan, hmark, h]

/-- The text of a well-formed numeral starts with a digit, a sign or a point. -/
theorem Numeral.exists_toList_eq_cons {n : Numeral} (hn : n.IsWritten)
    (hwell : n.isWellFormed = true) : ∃ c cs, n.toList = c :: cs ∧ startsWith c = true := by
  obtain ⟨hdigits, -⟩ := isWellFormed_iff.1 hwell
  have hs := hn.significand
  obtain ⟨⟨sign, whole, fraction⟩, exponent, suffix⟩ := n
  cases sign with
  | some c => exact ⟨c, _, rfl, by simp [startsWith, hs.sign c rfl]⟩
  | none =>
      cases whole with
      | cons d ds => exact ⟨d, _, rfl, by simp [startsWith, hs.whole d (List.mem_cons_self ..)]⟩
      | nil =>
          cases fraction with
          | none => simp [Significand.digits] at hdigits
          | some ds => exact ⟨'.', _, rfl, rfl⟩

/-- A well-formed numeral that there is room for is the first lexeme of its text, before any text
that can not continue it. -/
theorem Numeral.lexemesFrom_toList_append {n : Numeral} (hn : n.IsWritten)
    (hwell : n.isWellFormed = true) (hroom : n.toList.length ≤ maxTokenLength) {rest : List Char}
    (hrest : StartsWith (endsBefore · = true) rest) (base : Location) (offset : Nat) :
    lexemesFrom base offset (n.toList ++ rest) =
      ⟨n.token, String.ofList n.toList, base.offset offset⟩ ::
        lexemesFrom base (offset + byteLength n.toList) rest := by
  have hscan := scan_toList_append hn hwell hroom hrest
  obtain ⟨c, cs, htext, hc⟩ := exists_toList_eq_cons hn hwell
  rw [htext, List.cons_append] at hscan
  have hfirst := FirstToken.scan_numeral hc (cs ++ rest)
  rw [hscan, htext] at hfirst
  rw [htext, List.cons_append,
    lexemesFrom_of_scan base offset (of_not_isDelimiter (of_startsWith hc)).1 hfirst]

/-- A lexeme whose text is that of a well-formed numeral is of the token of this numeral. -/
theorem Numeral.token_eq_of_mem {base : Location} {offset : Nat} {cs : List Char} {l : Lexeme}
    (hl : l ∈ lexemesFrom base offset cs) {n : Numeral} (hn : n.IsWritten)
    (hwell : n.isWellFormed = true) (htext : n.toList = l.text.toList) : l.token = n.token := by
  obtain ⟨c, cs', -, htoken, hscanned⟩ := exists_scan_of_mem hl
  obtain ⟨d, ds, hcons, hd⟩ := exists_toList_eq_cons hn hwell
  obtain ⟨_, tail, _, hscan, -⟩ := FirstToken.exists_scan_eq c cs'
  have hhead : d :: ds = c :: tail := by rw [← hcons, htext, hscanned, hscan]
  obtain rfl : d = c := (List.cons.inj hhead).1
  rw [FirstToken.scan_numeral hd] at htoken hscanned
  have hsame : n = (scan (d :: cs')).1 :=
    toList_injective hn (isWritten_scan _) (htext.trans hscanned)
  rw [htoken, ← hsame]

end RootSignature
