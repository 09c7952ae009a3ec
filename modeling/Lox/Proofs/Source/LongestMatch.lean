import Mathlib.Data.List.TakeWhile
import Lox.Proofs.Source.Cutting

/-! # Longest matches

The pieces of a source are given here by the patterns of the language alone: a piece is the longest
text at the front of what is left that is of one of the patterns. Scanning cuts a source into
exactly these pieces, and lists a token or a report for each one that stands for it.

* **`Pattern`** — the texts that are a piece, with the kind of the piece;
* **`FirstPiece`**, **`Cuts`** — the longest piece at the front of a text, and the pieces of a whole
  text;
* **`Piece.measure_of_pattern`**, **`Piece.pattern_cut`** — a text of a pattern is one piece, and
  what is cut off is of a pattern;
* **`Piece.length_le_of_pattern`** — no text of a pattern at the front is longer;
* **`cuts_iff`** — there is one way to cut a text into longest pieces;
* **`Lists`**, **`Source.scan_longest_match`** — what scanning lists for them. -/

namespace Lox

open Numeral (AllDigits)

/-! ## Patterns -/

/-- The operators, with the kinds of their tokens. -/
def operatorTexts : List (List Char × TokenKind) :=
  [(['('], .leftParen), ([')'], .rightParen), (['{'], .leftBrace), (['}'], .rightBrace),
    ([','], .comma), (['.'], .dot), (['-'], .minus), (['+'], .plus), ([';'], .semicolon),
    (['/'], .slash), (['*'], .star), (['!'], .bang), (['!', '='], .bangEqual), (['='], .equal),
    (['=', '='], .equalEqual), (['>'], .greater), (['>', '='], .greaterEqual), (['<'], .less),
    (['<', '='], .lessEqual)]

/-- The blank characters, the line end among them. -/
def blanks : List Char := [' ', '\r', '\t', '\n']

/-- The blanks one by one. -/
theorem mem_blanks_iff {c : Char} : c ∈ blanks ↔ c = ' ' ∨ c = '\r' ∨ c = '\t' ∨ c = '\n' := by
  simp [blanks]

/-- **The patterns of the language**: the texts that are a piece of each kind. -/
inductive Pattern : PieceKind → List Char → Prop
  | operator {text : List Char} {kind : TokenKind} (h : (text, kind) ∈ operatorTexts) :
      Pattern (.operator kind) text
  | digits {ds : List Char} (hne : ds ≠ []) (hds : AllDigits ds) : Pattern .number ds
  | fraction {ds fs : List Char} (hne : ds ≠ []) (hds : AllDigits ds) (hfne : fs ≠ [])
      (hfs : AllDigits fs) : Pattern .number (ds ++ '.' :: fs)
  | word {c : Char} {cs : List Char} (hc : isLetter c = true)
      (hcs : ∀ d ∈ cs, isLetter d = true ∨ isDigit d = true) : Pattern .word (c :: cs)
  | string {body : List Char} (h : '"' ∉ body) : Pattern .string ('"' :: (body ++ ['"']))
  | comment {body : List Char} (h : '\n' ∉ body) : Pattern .comment ('/' :: '/' :: body)
  | blank {c : Char} (h : c ∈ blanks) : Pattern .blank [c]

/-- **The first piece of a text.** It is of a pattern, and no longer text at the front is. Where no
pattern fits, it is a single character, or the whole text if that is a string without its end. -/
inductive FirstPiece (source : Source) : Piece → Prop
  | longest {p : Piece} (h : Pattern p.kind p.text) (hfront : p.text <+: source)
      (hlongest : ∀ kind text, Pattern kind text → text <+: source →
        text.length ≤ p.text.length) : FirstPiece source p
  | unterminated {rest : List Char} (hsource : source = '"' :: rest) (h : '"' ∉ rest) :
      FirstPiece source ⟨.unterminated, source⟩
  | unexpected {c : Char} {rest : List Char} (hsource : source = c :: rest) (hquote : c ≠ '"')
      (h : ∀ kind text, Pattern kind text → ¬ text <+: source) :
      FirstPiece source ⟨.unexpected, [c]⟩

/-- **The pieces of a text**: the first piece, and the pieces of what is behind it. -/
inductive Cuts : Source → List Piece → Prop
  | nil : Cuts [] []
  | cons {p : Piece} {rest : Source} {ps : List Piece} (h : FirstPiece (p.text ++ rest) p)
      (hrest : Cuts rest ps) : Cuts (p.text ++ rest) (p :: ps)

/-- A text of a pattern has a first character. -/
theorem Pattern.exists_eq_cons {kind : PieceKind} {text : List Char} (h : Pattern kind text) :
    ∃ c cs, text = c :: cs := by
  refine List.exists_cons_of_ne_nil ?_
  cases h with
  | operator h =>
    have hall : ∀ entry ∈ operatorTexts, entry.1 ≠ [] := by decide
    exact hall _ h
  | digits hne hds => exact hne
  | fraction hne => exact List.append_ne_nil_of_left_ne_nil hne _
  | word | string | comment | blank => exact List.cons_ne_nil _ _

/-- No pattern is that of a text which is reported. -/
theorem Pattern.kind_ne {kind : PieceKind} {text : List Char} (h : Pattern kind text) :
    kind ≠ .unexpected ∧ kind ≠ .unterminated := by
  cases h <;> exact ⟨nofun, nofun⟩

namespace Piece

/-! ## What a first character announces -/

/-- A digit announces a number. -/
theorem head_of_isDigit {c : Char} (h : isDigit c = true) : head c = .digit := by
  have hsingle : singleOperator? c = none := by
    unfold singleOperator?
    split <;> first | rfl | exact absurd h (by decide)
  have hgrowing : growingOperator? c = none := by
    unfold growingOperator?
    split <;> first | rfl | exact absurd h (by decide)
  have hne : ∀ d : Char, isDigit d = false → c ≠ d := fun d hd => Numeral.ne_of_isDigit h hd
  unfold head
  simp [hsingle, hgrowing, h, hne '/' (by decide), hne ' ' (by decide), hne '\r' (by decide),
    hne '\t' (by decide), hne '\n' (by decide), hne '"' (by decide)]

/-- No letter is a digit. -/
theorem isDigit_of_isLetter {c : Char} (h : isLetter c = true) : isDigit c = false := by
  rw [← Bool.not_eq_true]
  intro hd
  obtain ⟨hlow, hhigh⟩ := Numeral.toNat_of_isDigit hd
  simp only [isLetter, Bool.or_eq_true, Bool.and_eq_true, decide_eq_true_eq, beq_iff_eq] at h
  rcases h with (⟨ha, -⟩ | ⟨hA, -⟩) | rfl
  · have hle : 97 ≤ c.toNat := ha
    omega
  · have hle : 65 ≤ c.toNat := hA
    omega
  · exact absurd hd (by decide)

/-- A letter announces a word. -/
theorem head_of_isLetter {c : Char} (h : isLetter c = true) : head c = .letter := by
  have hsingle : singleOperator? c = none := by
    unfold singleOperator?
    split <;> first | rfl | exact absurd h (by decide)
  have hgrowing : growingOperator? c = none := by
    unfold growingOperator?
    split <;> first | rfl | exact absurd h (by decide)
  have hne : ∀ d : Char, isLetter d = false → c ≠ d := by
    rintro d hd rfl
    rw [h] at hd
    cases hd
  unfold head
  simp [hsingle, hgrowing, h, isDigit_of_isLetter h, hne '/' (by decide), hne ' ' (by decide),
    hne '\r' (by decide), hne '\t' (by decide), hne '\n' (by decide), hne '"' (by decide)]

/-! ## A text of a pattern is cut off whole -/

/-- A run that takes all characters. -/
theorem length_takeWhile_of_forall {p : Char → Bool} {cs : List Char} (h : ∀ c ∈ cs, p c = true) :
    (cs.takeWhile p).length = cs.length := by
  rw [List.takeWhile_eq_self_iff.2 h]

/-- Digits are a number. -/
theorem numberLength_of_allDigits {ds : List Char} (hds : AllDigits ds) :
    numberLength ds = ds.length := by
  have hlength := numberLength_append hds (show ∀ c ∈ ([] : List Char).head?, _ by simp)
  rwa [List.append_nil] at hlength

/-- Digits on both sides of a point are a number. -/
theorem numberLength_of_fraction {ds fs : List Char} (hds : AllDigits ds) (hne : fs ≠ [])
    (hfs : AllDigits fs) : numberLength (ds ++ '.' :: fs) = (ds ++ '.' :: fs).length := by
  obtain ⟨f, fs, rfl⟩ := List.exists_cons_of_ne_nil hne
  have hfraction : fractionLength ('.' :: f :: fs) = ('.' :: f :: fs).length := by
    rw [fractionLength, if_pos (hfs f List.mem_cons_self), length_takeWhile_of_forall hfs,
      Nat.add_comm]
    rfl
  rw [numberLength_append hds (by simp; decide), hfraction, List.length_append]

/-- A string ends at its closing quotation mark. -/
theorem stringLength?_of_not_mem {body rest : List Char} (h : '"' ∉ body) :
    stringLength? (body ++ '"' :: rest) = some (body.length + 1) := by
  have hbody : (body ++ '"' :: rest).takeWhile (· ≠ '"') = body := by
    rw [List.takeWhile_append_of_pos fun c hc => by simpa using ne_of_mem_of_not_mem hc h]
    simp
  unfold stringLength?
  rw [hbody]
  simp

/-- A string without a closing quotation mark does not end. -/
theorem stringLength?_eq_none {rest : List Char} (h : '"' ∉ rest) :
    stringLength? rest = none := by
  have hrest : (rest.takeWhile (· ≠ '"')).length = rest.length :=
    length_takeWhile_of_forall fun c hc => by simpa using ne_of_mem_of_not_mem hc h
  unfold stringLength?
  rw [hrest]
  exact if_neg (Nat.lt_irrefl _)

/-- **A text of a pattern is one piece.** -/
theorem measure_of_pattern {kind : PieceKind} {c : Char} {cs : List Char}
    (h : Pattern kind (c :: cs)) : measure c cs = (kind, cs.length) := by
  generalize htext : c :: cs = text at h
  cases h with
  | operator h =>
    have hall : ∀ entry ∈ operatorTexts, measure (entry.1.headD ' ') entry.1.tail =
        (.operator entry.2, entry.1.tail.length) := by decide
    subst htext
    exact hall _ h
  | digits hne hds =>
    subst htext
    rw [measure_eq, head_of_isDigit (hds c List.mem_cons_self)]
    have hcs : AllDigits cs := fun d hd => hds d (List.mem_cons_of_mem c hd)
    rw [Head.measure, numberLength_of_allDigits hcs]
  | @fraction ds fs hne hds hfne hfs =>
    obtain ⟨d, ds, rfl⟩ := List.exists_cons_of_ne_nil hne
    rw [List.cons_append, List.cons.injEq] at htext
    obtain ⟨rfl, rfl⟩ := htext
    rw [measure_eq, head_of_isDigit (hds c List.mem_cons_self)]
    have hcs : AllDigits ds := fun d hd => hds d (List.mem_cons_of_mem c hd)
    rw [Head.measure, numberLength_of_fraction hcs hfne hfs]
  | word hc hcs =>
    cases htext
    rw [measure_eq, head_of_isLetter hc, Head.measure, wordLength,
      length_takeWhile_of_forall fun d hd => by simpa [isWordChar] using hcs d hd]
  | string h =>
    cases htext
    have hhead : head '"' = .quote := rfl
    rw [measure_eq, hhead, Head.measure, stringLength?_of_not_mem h, List.length_append]
    rfl
  | comment h =>
    cases htext
    show (PieceKind.comment, commentLength _ + 1) = _
    rw [commentLength, length_takeWhile_of_forall fun d hd => by
      simpa using ne_of_mem_of_not_mem hd h]
    rfl
  | blank h =>
    cases htext
    rcases mem_blanks_iff.1 h with rfl | rfl | rfl | rfl <;> rfl

/-! ## What is cut off is of a pattern -/

/-- A run that is taken off the front is what `take` takes. -/
theorem take_length_takeWhile (p : Char → Bool) (cs : List Char) :
    cs.take (cs.takeWhile p).length = cs.takeWhile p :=
  (List.prefix_iff_eq_take.1 (List.takeWhile_prefix p)).symm

/-- A string that ends has its only quotation mark at its end. -/
theorem take_stringLength? {rest : List Char} {n : Nat} (h : stringLength? rest = some n) :
    ∃ body, '"' ∉ body ∧ rest.take n = body ++ ['"'] := by
  by_cases hmem : '"' ∈ rest
  · obtain ⟨body, more, rfl, hbody⟩ := List.eq_append_cons_of_mem hmem
    rw [stringLength?_of_not_mem hbody] at h
    cases h
    exact ⟨body, hbody, by rw [List.take_length_add_append]; rfl⟩
  · rw [stringLength?_eq_none hmem] at h
    cases h

/-- A string that does not end has no closing quotation mark. -/
theorem not_mem_of_stringLength?_eq_none {rest : List Char} (h : stringLength? rest = none) :
    '"' ∉ rest := by
  intro hmem
  obtain ⟨body, more, rfl, hbody⟩ := List.eq_append_cons_of_mem hmem
  rw [stringLength?_of_not_mem hbody] at h
  cases h

/-- An operator of one character is of a pattern. -/
theorem pattern_of_single {c : Char} {kind : TokenKind} (h : singleOperator? c = some kind) :
    Pattern (.operator kind) [c] := by
  unfold singleOperator? at h
  split at h <;> cases h <;> exact .operator (by decide)

/-- An operator that grows is of a pattern, with an equals sign behind it and without. -/
theorem pattern_of_growing {c : Char} {withEqual alone : TokenKind}
    (h : growingOperator? c = some (withEqual, alone)) :
    Pattern (.operator withEqual) [c, '='] ∧ Pattern (.operator alone) [c] := by
  unfold growingOperator? at h
  split at h <;> cases h <;> exact ⟨.operator (by decide), .operator (by decide)⟩

/-- Two slashes and the characters up to the end of the line are a comment. -/
theorem pattern_of_slashes (rest : List Char) :
    Pattern .comment ('/' :: '/' :: rest.take (commentLength rest)) := by
  rw [commentLength, take_length_takeWhile]
  refine .comment fun hmem => ?_
  simpa using List.mem_takeWhile_imp hmem

/-- A digit and the characters that continue it are a number. -/
theorem pattern_of_digit {c : Char} (hc : isDigit c = true) (rest : List Char) :
    Pattern .number (c :: rest.take (numberLength rest)) := by
  obtain ⟨ds, hne, hds, htext | ⟨fs, hfne, hfs, htext⟩⟩ := cons_take_numberLength hc rest
  · exact htext ▸ .digits hne hds
  · exact htext ▸ .fraction hne hds hfne hfs

/-- A letter and the characters that continue it are a word. -/
theorem pattern_of_letter {c : Char} (hc : isLetter c = true) (rest : List Char) :
    Pattern .word (c :: rest.take (wordLength rest)) := by
  rw [wordLength, take_length_takeWhile]
  refine .word hc fun d hd => ?_
  simpa [isWordChar] using List.mem_takeWhile_imp hd

/-- **What is cut off is of a pattern**, unless it is reported: then it is a character that
announces nothing, or a string without its end. -/
theorem pattern_cut (c : Char) (rest : List Char) :
    Pattern (cut c rest).1.kind (cut c rest).1.text ∨
      head c = .other ∧ (cut c rest).1 = ⟨.unexpected, [c]⟩ ∨
      (c = '"' ∧ '"' ∉ rest) ∧ (cut c rest).1 = ⟨.unterminated, c :: rest⟩ := by
  have hfits := fits_head c
  unfold cut
  rw [measure_eq]
  generalize head c = form at hfits ⊢
  cases form with
  | single kind => exact .inl (pattern_of_single hfits)
  | growing withEqual alone =>
    left
    simp only [Head.measure]
    split
    · next hequal =>
      obtain ⟨more, rfl⟩ := List.head?_eq_some_iff.1 hequal
      exact (pattern_of_growing hfits).1
    · exact (pattern_of_growing hfits).2
  | slash =>
    left
    cases hfits
    simp only [Head.measure]
    split
    · next hslash =>
      obtain ⟨more, rfl⟩ := List.head?_eq_some_iff.1 hslash
      exact pattern_of_slashes more
    · exact .operator (show (['/'], _) ∈ operatorTexts by decide)
  | blank =>
    left
    exact .blank (mem_blanks_iff.2 hfits)
  | quote =>
    have hquote : c = '"' := hfits
    simp only [Head.measure]
    cases hlength : stringLength? rest with
    | some n =>
      left
      obtain ⟨body, hbody, htake⟩ := take_stringLength? hlength
      show Pattern .string (c :: rest.take n)
      rw [hquote, htake]
      exact .string hbody
    | none =>
      refine .inr (.inr ⟨⟨hquote, not_mem_of_stringLength?_eq_none hlength⟩, ?_⟩)
      simp only [List.take_length]
  | digit => exact .inl (pattern_of_digit hfits rest)
  | letter => exact .inl (pattern_of_letter hfits rest)
  | other => exact .inr (.inl ⟨rfl, rfl⟩)

/-- **No text of a pattern at the front is longer** than what is cut off. -/
theorem length_le_of_pattern {kind : PieceKind} {c : Char} {cs rest : List Char}
    (h : Pattern kind (c :: cs)) (hfront : cs <+: rest) :
    (c :: cs).length ≤ (cut c rest).1.text.length := by
  obtain ⟨back, rfl⟩ := hfront
  by_cases hkind : (cut c (cs ++ back)).1.kind = .unterminated
  · rcases pattern_cut c (cs ++ back) with hpattern | ⟨-, hcut⟩ | ⟨-, hcut⟩
    · exact absurd hkind hpattern.kind_ne.2
    · rw [hcut] at hkind
      cases hkind
    · rw [hcut, List.length_cons, List.length_cons, List.length_append]
      omega
  · have hwhole := measure_of_pattern h
    cases hmeasure : measure c (cs ++ back) with
    | mk kind' n =>
      simp only [cut, hmeasure] at hkind
      simp only [cut, hmeasure, List.length_cons, List.length_take, List.length_append]
      by_cases hle : cs.length ≤ n
      · omega
      -- a shorter piece would be cut off the text of the pattern as well
      · rw [measure_append hmeasure (Nat.le_of_not_le hle) hkind] at hwhole
        cases hwhole
        exact absurd le_rfl hle

/-- A text of a pattern starts with a character that announces it. -/
theorem head_ne_other {kind : PieceKind} {c : Char} {cs : List Char} (h : Pattern kind (c :: cs)) :
    head c ≠ .other := by
  intro hother
  have hmeasure := measure_of_pattern h
  rw [measure_eq, hother] at hmeasure
  exact h.kind_ne.1 (congrArg Prod.fst hmeasure).symm

/-- A text of a pattern that starts with a quotation mark has another one. -/
theorem quote_mem_of_pattern {kind : PieceKind} {cs : List Char} (h : Pattern kind ('"' :: cs)) :
    '"' ∈ cs := by
  by_contra hcs
  have hmeasure : (PieceKind.unterminated, cs.length) = (kind, cs.length) := by
    rw [← measure_of_pattern h]
    have hhead : head '"' = .quote := rfl
    rw [measure_eq, hhead, Head.measure, stringLength?_eq_none hcs]
  exact h.kind_ne.2 (congrArg Prod.fst hmeasure).symm

/-- A quotation mark without another one behind it takes the rest of the text. -/
theorem cut_quote {rest : List Char} (h : '"' ∉ rest) :
    (cut '"' rest).1 = ⟨.unterminated, '"' :: rest⟩ := by
  rcases pattern_cut '"' rest with hpattern | ⟨hother, -⟩ | ⟨-, hcut⟩
  · refine absurd (quote_mem_of_pattern hpattern) fun hmem => h (List.mem_of_mem_take hmem)
  · cases hother
  · exact hcut

end Piece

/-! ## The pieces of a text -/

/-- A text is of one pattern only. -/
theorem Pattern.kind_unique {kind kind' : PieceKind} {text : List Char} (h : Pattern kind text)
    (h' : Pattern kind' text) : kind = kind' := by
  obtain ⟨c, cs, rfl⟩ := h.exists_eq_cons
  have hmeasure := Piece.measure_of_pattern h
  rw [Piece.measure_of_pattern h'] at hmeasure
  exact (congrArg Prod.fst hmeasure).symm

/-- What is cut off is at the front. -/
theorem Piece.text_cut_prefix (c : Char) (rest : List Char) : (cut c rest).1.text <+: c :: rest :=
  ⟨_, text_append_rest c rest⟩

/-- **What is cut off is the first piece.** -/
theorem firstPiece_cut (c : Char) (rest : List Char) :
    FirstPiece (c :: rest) (Piece.cut c rest).1 := by
  rcases Piece.pattern_cut c rest with hpattern | ⟨hother, hcut⟩ | ⟨⟨hquote, hrest⟩, hcut⟩
  · refine .longest hpattern (Piece.text_cut_prefix c rest) fun kind text h htext => ?_
    obtain ⟨d, ds, rfl⟩ := h.exists_eq_cons
    obtain ⟨rfl, htail⟩ := List.cons_prefix_cons.1 htext
    exact Piece.length_le_of_pattern h htail
  · rw [hcut]
    refine .unexpected rfl ?_ fun kind text h htext => ?_
    · rintro rfl
      cases hother
    · obtain ⟨d, ds, rfl⟩ := h.exists_eq_cons
      obtain ⟨rfl, -⟩ := List.cons_prefix_cons.1 htext
      exact Piece.head_ne_other h hother
  · rw [hcut]
    exact .unterminated (congrArg (· :: rest) hquote) hrest

/-- **There is no other first piece.** -/
theorem FirstPiece.eq_cut {c : Char} {rest : List Char} {p : Piece}
    (h : FirstPiece (c :: rest) p) : p = (Piece.cut c rest).1 := by
  generalize hsource : c :: rest = source at h
  cases h with
  | longest hp hfront hlongest =>
    subst hsource
    obtain ⟨d, ds, htext⟩ := hp.exists_eq_cons
    rw [htext] at hfront
    obtain ⟨rfl, htail⟩ := List.cons_prefix_cons.1 hfront
    rw [← htext] at hfront
    rcases Piece.pattern_cut d rest with hpattern | ⟨hother, -⟩ | ⟨⟨rfl, hrest⟩, -⟩
    · -- both are of a pattern and at the front, so neither is longer
      have hle := hlongest _ _ hpattern (Piece.text_cut_prefix d rest)
      have hge := Piece.length_le_of_pattern (htext ▸ hp) htail
      rw [← htext] at hge
      have htexts : p.text = (Piece.cut d rest).1.text := by
        rw [List.prefix_iff_eq_take.1 hfront,
          List.prefix_iff_eq_take.1 (Piece.text_cut_prefix d rest), Nat.le_antisymm hge hle]
      have hkinds : p.kind = (Piece.cut d rest).1.kind := hp.kind_unique (htexts ▸ hpattern)
      exact Piece.mk.injEq .. ▸ ⟨hkinds, htexts⟩
    · exact absurd hother (Piece.head_ne_other (htext ▸ hp))
    · exact absurd (htail.mem (Piece.quote_mem_of_pattern (htext ▸ hp))) hrest
  | unterminated hquote hrest =>
    subst hsource
    obtain ⟨rfl, rfl⟩ := List.cons.inj hquote
    exact (Piece.cut_quote hrest).symm
  | unexpected hcons hquote hnone =>
    obtain ⟨rfl, rfl⟩ := List.cons.inj (hsource.trans hcons)
    subst hsource
    rcases Piece.pattern_cut c rest with hpattern | ⟨-, hcut⟩ | ⟨⟨rfl, -⟩, -⟩
    · exact absurd (Piece.text_cut_prefix c rest) (hnone _ _ hpattern)
    · exact hcut.symm
    · exact absurd rfl hquote

/-- A first piece takes a character. -/
theorem FirstPiece.exists_eq_cons {source : Source} {p : Piece} (h : FirstPiece source p) :
    ∃ c cs, p.text = c :: cs := by
  cases h with
  | longest hp => exact hp.exists_eq_cons
  | unterminated hsource => exact ⟨_, _, hsource⟩
  | unexpected => exact ⟨_, _, rfl⟩

/-- **There is one way to cut a text into first pieces**: its pieces. -/
theorem cuts_iff {source : Source} {ps : List Piece} : Cuts source ps ↔ ps = pieces source := by
  constructor
  · intro h
    induction h with
    | nil => exact pieces_nil.symm
    | @cons p rest ps hfirst hrest ih =>
      obtain ⟨c, cs, htext⟩ := hfirst.exists_eq_cons
      have hsource : p.text ++ rest = c :: (cs ++ rest) := by rw [htext, List.cons_append]
      have hp : p = (Piece.cut c (cs ++ rest)).1 := (hsource ▸ hfirst).eq_cut
      have hbehind : (Piece.cut c (cs ++ rest)).2 = rest := by
        refine List.append_cancel_left (show p.text ++ _ = p.text ++ rest from ?_)
        rw [hsource, hp, Piece.text_append_rest]
      rw [hsource, pieces_cons, hbehind, ← hp, ih]
  · rintro rfl
    fun_induction pieces source with
    | case1 => exact .nil
    | case2 c rest ih =>
      have htext := Piece.text_append_rest c rest
      rw [← htext]
      exact .cons (htext.symm ▸ firstPiece_cut c rest) ih

/-! ## What the pieces list -/

/-- The token that a piece stands for, on any line. A word is a keyword exactly if it is spelled
like one. -/
inductive Piece.Denotes : Piece → Token → Prop
  | operator (kind : TokenKind) (text : List Char) (line : Int) :
      Denotes ⟨.operator kind, text⟩ ⟨kind, String.ofList text, none, line⟩
  | number {text : List Char} {n : Float} (line : Int) (h : Numeral.read? text = some n) :
      Denotes ⟨.number, text⟩ ⟨.number, String.ofList text, some (.number n), line⟩
  | keyword (word : Keyword) (line : Int) :
      Denotes ⟨.word, word.spelling.toList⟩ ⟨.keyword word, word.spelling, none, line⟩
  | name {text : List Char} (line : Int) (h : ∀ word : Keyword, text ≠ word.spelling.toList) :
      Denotes ⟨.word, text⟩ ⟨.identifier, String.ofList text, none, line⟩
  | string (body : List Char) (line : Int) :
      Denotes ⟨.string, '"' :: (body ++ ['"'])⟩
        ⟨.string, String.ofList ('"' :: (body ++ ['"'])), some (.string (Text.ofBytes body)), line⟩

/-- What the pieces of a text list behind a line, each one on the line of its last character: one
token, one report, or nothing for each, in order, and one end token behind them all. -/
inductive Lists : Nat → List Piece → List Token → List LexicalError → Prop
  | finish (line : Nat) : Lists line [] [⟨.endOfInput, "", none, line⟩] []
  | token {line : Nat} {p : Piece} {ps : List Piece} {t : Token} {ts : List Token}
      {es : List LexicalError} (h : p.Denotes t) (hline : t.line = (line + p.lines : Nat))
      (hrest : Lists (line + p.lines) ps ts es) : Lists line (p :: ps) (t :: ts) es
  | silent {line : Nat} {p : Piece} {ps : List Piece} {ts : List Token} {es : List LexicalError}
      (h : p.kind = .blank ∨ p.kind = .comment) (hrest : Lists (line + p.lines) ps ts es) :
      Lists line (p :: ps) ts es
  | unexpected {line : Nat} {p : Piece} {ps : List Piece} {ts : List Token}
      {es : List LexicalError} (h : p.kind = .unexpected)
      (hrest : Lists (line + p.lines) ps ts es) :
      Lists line (p :: ps) ts (⟨line + p.lines, .unexpectedCharacter⟩ :: es)
  | unterminated {line : Nat} {p : Piece} {ps : List Piece} {ts : List Token}
      {es : List LexicalError} (h : p.kind = .unterminated)
      (hrest : Lists (line + p.lines) ps ts es) :
      Lists line (p :: ps) ts (⟨line + p.lines, .unterminatedString⟩ :: es)

/-- A number stands for its token. -/
theorem Piece.denotes_number {text : List Char} {line : Nat} (h : Numeral.read? text ≠ none) :
    ∃ t, token? line ⟨.number, text⟩ = some t ∧ Denotes ⟨.number, text⟩ t ∧ t.line = line := by
  obtain ⟨n, hn⟩ := Option.ne_none_iff_exists'.1 h
  refine ⟨_, rfl, ?_, rfl⟩
  rw [Scan.numberLiteral, hn]
  exact .number line hn

/-- A word stands for its token. -/
theorem Piece.denotes_word (text : List Char) (line : Nat) :
    ∃ t, token? line ⟨.word, text⟩ = some t ∧ Denotes ⟨.word, text⟩ t ∧ t.line = line := by
  refine ⟨_, rfl, ?_, rfl⟩
  cases hword : Keyword.ofSpelling? (String.ofList text) with
  | some word =>
    have hspelling := Keyword.spelling_of_ofSpelling? hword
    have htext : text = word.spelling.toList := by rw [hspelling, String.toList_ofList]
    rw [TokenKind.ofWord, hword, ← hspelling, htext]
    exact .keyword word line
  | none =>
    rw [TokenKind.ofWord, hword]
    refine .name line fun word htext => ?_
    rw [htext, String.ofList_toList] at hword
    have hnone := List.find?_eq_none.1 hword word (Keyword.mem_all word)
    simp at hnone

/-- A piece of a pattern stands for a token, unless it is blank or a comment. -/
theorem Pattern.denotes {p : Piece} (h : Pattern p.kind p.text) (line : Nat) :
    (∃ t, p.token? line = some t ∧ p.Denotes t ∧ t.line = line) ∨
      p.token? line = none ∧ (p.kind = .blank ∨ p.kind = .comment) := by
  obtain ⟨kind, text⟩ := p
  cases h with
  | operator => exact .inl ⟨_, rfl, .operator _ _ _, rfl⟩
  | digits hne hds =>
    have hread : Numeral.read? text ≠ none := by
      rw [Numeral.read?_digits hne hds]
      exact Option.some_ne_none _
    exact .inl (Piece.denotes_number hread)
  | @fraction ds fs hne hds hfne hfs =>
    have hread : Numeral.read? (ds ++ '.' :: fs) ≠ none := by
      rw [Numeral.read?_point hne hds hfs]
      exact Option.some_ne_none _
    exact .inl (Piece.denotes_number hread)
  | word => exact .inl (Piece.denotes_word _ line)
  | @string body hbody =>
    left
    refine ⟨_, rfl, ?_, rfl⟩
    have hliteral : Scan.stringLiteral ('"' :: (body ++ ['"'])) =
        some (.string (Text.ofBytes body)) := by
      rw [Scan.stringLiteral, List.tail_cons, List.dropLast_concat]
    rw [hliteral]
    exact .string body line
  | comment => exact .inr ⟨rfl, .inr rfl⟩
  | blank => exact .inr ⟨rfl, .inl rfl⟩

/-- A piece of a pattern is not reported. -/
theorem Pattern.error?_eq_none {p : Piece} (h : Pattern p.kind p.text) (line : Nat) :
    p.error? line = none := by
  obtain ⟨kind, text⟩ := p
  cases h <;> rfl

/-- **Pieces list their tokens and reports**, in order, and the end token. -/
theorem lists_tokensOf {ps : List Piece} (line : Nat)
    (h : ∀ p ∈ ps, Pattern p.kind p.text ∨ p.kind = .unexpected ∨ p.kind = .unterminated) :
    Lists line ps (tokensOf line ps ++ [⟨.endOfInput, "", none, (lineBehind line ps : Nat)⟩])
      (errorsOf line ps) := by
  induction ps generalizing line with
  | nil => exact .finish line
  | cons p ps ih =>
    have hrest := ih (line + p.lines) fun q hq => h q (List.mem_cons_of_mem p hq)
    rw [tokensOf, errorsOf, List.append_assoc]
    rcases h p List.mem_cons_self with hpattern | hkind | hkind
    · rw [hpattern.error?_eq_none]
      rcases hpattern.denotes (line + p.lines) with ⟨t, htoken, hdenotes, hline⟩ | ⟨hnone, hkind⟩
      · rw [htoken]
        exact .token hdenotes hline hrest
      · rw [hnone]
        exact .silent hkind hrest
    · simp only [Piece.token?, Piece.error?, hkind]
      exact .unexpected hkind hrest
    · simp only [Piece.token?, Piece.error?, hkind]
      exact .unterminated hkind hrest

/-- A first piece is of a pattern or reported. -/
theorem FirstPiece.pattern {source : Source} {p : Piece} (h : FirstPiece source p) :
    Pattern p.kind p.text ∨ p.kind = .unexpected ∨ p.kind = .unterminated := by
  cases h with
  | longest hpattern => exact .inl hpattern
  | unterminated => exact .inr (.inr rfl)
  | unexpected => exact .inr (.inl rfl)

/-- Every piece is of a pattern or reported. -/
theorem Cuts.pattern_of_mem {source : Source} {ps : List Piece} (h : Cuts source ps) {p : Piece}
    (hp : p ∈ ps) : Pattern p.kind p.text ∨ p.kind = .unexpected ∨ p.kind = .unterminated := by
  induction h with
  | nil => cases hp
  | cons hfirst _ ih =>
    rcases List.mem_cons.1 hp with rfl | hp
    · exact hfirst.pattern
    · exact ih hp

/-- **Scanning is matching the longest pattern, and nothing is lost.** Whatever the source is,
scanning it piece by piece goes through. There is one way to cut it into longest pieces. Put
together they are the source, and what is listed is what they stand for in order, with one end
token, which is the last. -/
theorem Source.scan_longest_match (source : Source) :
    source.ScansThrough ∧
      ∃ ps, (∀ qs, Cuts source qs ↔ qs = ps) ∧ (ps.map Piece.text).flatten = source ∧
        Lists 1 ps (scan source).tokens.toList (scan source).errors.toList ∧
        ∃ front eof, (scan source).tokens.toList = front ++ [eof] ∧ eof.kind = .endOfInput ∧
          ∀ t ∈ front, t.kind ≠ .endOfInput := by
  refine ⟨source.scansThrough, pieces source, fun qs => cuts_iff, flatten_pieces source, ?_, ?_⟩
  · rw [toList_tokens_scan, toList_errors_scan]
    exact lists_tokensOf 1 fun p hp => (cuts_iff.2 rfl).pattern_of_mem hp
  · refine ⟨_, _, toList_tokens_scan source, rfl, fun t ht => ?_⟩
    have hformed : ∀ p ∈ pieces source, p.Formed := fun p hp => Piece.formed_of_mem_pieces hp
    exact (scanned_of_mem_tokensOf hformed ht).kind_ne

end Lox
