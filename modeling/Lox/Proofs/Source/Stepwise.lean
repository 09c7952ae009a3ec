import Lox.Proofs.Outcomes
import Lox.Proofs.Source.Tokens

/-! # Scanning character by character

The characters of a source are passed one after the other: a loop looks at the character behind the
cursor, or at NUL where there is none, and moves on over it. Line ends are counted in two places
only, where one stands between tokens and inside of strings. Every piece is passed like this, and
comes out as long as it is measured.

* **`Window.advanceWhile`** — the loop that passes characters;
* **`Window.scanToken`**, **`Window.scanAll`** — the next token, and all tokens;
* **`Window.advanceWhile_eq_take`** — the loop takes the longest run of a class;
* **`Window.word_eq_takeAs`**, **`Window.number_eq_takeAs`**, **`Window.string_eq_takeAs`**,
  **`Window.comment_eq_takeAs`** — words, numbers, strings and comments are taken at the lengths that
  they are measured at;
* **`Window.scanToken_eq_scanPiece`** — every token is scanned as its piece is;
* **`Window.exists_scanAll_ofSource`** — a source is scanned to the end, and all of its tokens and
  reports are found. -/

namespace Lox.Window

variable {w : Window} {c : Char} {rest : List Char} {counting : Bool}

/-! ## Passing characters -/

/-- A character that ends no line is taken by moving over it. -/
theorem shift_one_eq_take (h : w.rest = c :: rest) (hc : c ≠ '\n') : w.shift 1 = w.take 1 := by
  simp [take, shift, Scan.pass, h, hc]

/-- Moving over a character drops what it is. -/
theorem discard_advance (h : w.rest = c :: rest) : discard advance w = .ok () (w.shift 1) := by
  obtain ⟨start, text, rest, found⟩ := w
  cases h
  rfl

/-- A single character is taken as such, if it is counted or ends no line. -/
theorem pass_eq_take (h : w.rest = c :: rest) (hc : counting = true ∨ c ≠ '\n') :
    pass counting w = .ok () (w.take 1) := by
  rw [pass_of_cons h, take]
  cases hline : c == '\n' with
  | true =>
    have hcounting : counting = true := hc.resolve_right (by simpa using hline)
    obtain rfl : c = '\n' := by simpa using hline
    simp [hcounting, h, countLine, shift, Scan.pass]
  | false =>
    have hne : c ≠ '\n' := by simpa using hline
    simp [h, shift, Scan.pass, hne]

theorem take_zero (w : Window) : w.take 0 = w := by simp [take, shift, Scan.pass]

theorem take_take (m n : Nat) (w : Window) : (w.take m).take n = w.take (m + n) := by
  simp [take, shift, Scan.pass, List.take_add, Nat.add_assoc]

/-- **The loop takes the longest run of a class**, if it goes on exactly in front of characters of
the class, and counts lines if one of them is a line end. -/
theorem advanceWhile_eq_take {goesOn : Window → Bool} {p : Char → Bool}
    (hgoesOn : ∀ w, goesOn w = w.rest.head?.any p) (hcounting : counting = true ∨ p '\n' = false)
    (w : Window) :
    advanceWhile counting goesOn w = .ok () (w.take (w.rest.takeWhile p).length) := by
  induction hrest : w.rest generalizing w with
  | nil =>
    have hstops : goesOn w = false := by rw [hgoesOn, hrest]; rfl
    rw [advanceWhile, if_neg (by simp [hstops]), List.takeWhile_nil, List.length_nil, take_zero]
  | cons c rest ih =>
    have hgoes : goesOn w = p c := by rw [hgoesOn, hrest]; rfl
    cases hp : p c with
    | false =>
      rw [advanceWhile, if_neg (by simp [hgoes, hp]), List.takeWhile_cons_of_neg (by simp [hp]),
        List.length_nil, take_zero]
    | true =>
      have hc : counting = true ∨ c ≠ '\n' := hcounting.imp_right fun hline => by
        rintro rfl
        rw [hp] at hline
        cases hline
      have hpass := pass_eq_take hrest hc
      have hbehind : (w.take 1).rest = rest := by simp [hrest]
      rw [advanceWhile, if_pos (hgoes.trans hp)]
      split
      · rename_i w' hw'
        obtain rfl : w.take 1 = w' := by simpa [hpass] using hw'
        rw [ih _ hbehind, take_take, List.takeWhile_cons_of_pos hp, List.length_cons, Nat.add_comm]
      · rename_i hfails
        rw [hpass] at hfails
        cases hfails

/-! ## Lengths of pieces -/

/-- At the end of a source the character behind the cursor is of no class that NUL is not of. -/
theorem apply_peek {p : Char → Bool} (h : p '\x00' = false) (w : Window) :
    p w.peek = w.rest.head?.any p := by
  cases hrest : w.rest <;> simp [peek, hrest, h]

/-- In front of the end any character but one may be looked for, NUL as well. -/
theorem peek_ne_and_not_isAtEnd (c : Char) (w : Window) :
    (w.peek != c && !w.isAtEnd) = w.rest.head?.any (· ≠ c) := by
  cases hrest : w.rest with
  | nil => simp [isAtEnd, hrest]
  | cons d rest => by_cases hd : d = c <;> simp [peek, isAtEnd, hrest, hd]

/-- Digits are passed up to the first other character. -/
theorem advanceWhile_isDigit (w : Window) :
    advanceWhile false (fun w => isDigit w.peek) w =
      .ok () (w.take (w.rest.takeWhile isDigit).length) :=
  advanceWhile_eq_take (apply_peek (by decide)) (.inr (by decide)) w

/-- Unless they are a number, characters are taken without more ado. -/
theorem takeAs_of_ne {kind : PieceKind} (h : kind ≠ .number) (n : Nat) (w : Window) :
    takeAs kind n w = .ok () ((w.take n).recorded kind) := by
  rw [takeAs, if_neg fun hnumber => h hnumber.1]

/-- **A word is taken at its length.** -/
theorem word_eq_takeAs (w : Window) : word w = takeAs .word (Piece.wordLength w.rest) w := by
  have hpass : advanceWhile false (fun w => isWordChar w.peek) w =
      .ok () (w.take (Piece.wordLength w.rest)) :=
    advanceWhile_eq_take (apply_peek (by decide)) (.inr (by decide)) w
  rw [word, bind_eq_of_eq_ok hpass, takeAs_of_ne (by simp)]
  rfl

/-- The number that the characters of a window denote is added as a piece of that kind is. -/
theorem addNumber_take (n : Nat) (w : Window) : addNumber (w.take n) = takeAs .number n w := by
  rw [addNumber, takeAs]
  cases hread : Numeral.read? (w.take n).text with
  | none => rw [if_pos ⟨rfl, rfl⟩]
  | some x =>
    rw [if_neg (by simp)]
    simp [recorded, Scan.record, Scan.numberLiteral, hread, addToken]

/-- A point with a digit behind it is passed, and the digits are. -/
theorem passFraction_of_point {d : Char} {more : List Char} (h : w.rest = '.' :: d :: more)
    (hd : isDigit d = true) :
    passFraction w = .ok () (w.take (1 + ((d :: more).takeWhile isDigit).length)) := by
  have hahead : (w.peek == '.' && isDigit w.peekNext) = true := by simp [peek, peekNext, h, hd]
  have hbehind : (w.take 1).rest = d :: more := by simp [h]
  rw [passFraction, if_pos hahead, bind_eq_of_eq_ok (discard_advance h),
    shift_one_eq_take h (by decide), advanceWhile_isDigit, hbehind, take_take]

/-- Where no point has a digit behind it, nothing is passed. -/
theorem passFraction_of_not_point
    (h : ∀ d more, w.rest = '.' :: d :: more → isDigit d = false) : passFraction w = .ok () w := by
  have hahead : ¬ (w.peek == '.' && isDigit w.peekNext) = true := by
    have hnul : isDigit '\x00' = false := by decide
    match hrest : w.rest with
    | [] => simp [peek, hrest]
    | [c] => simp [peekNext, hrest, hnul]
    | c :: d :: more =>
      simp only [peek, peekNext, hrest, List.headD_cons, List.tail_cons, Bool.and_eq_true,
        beq_iff_eq]
      rintro ⟨rfl, hd⟩
      rw [h d more hrest] at hd
      cases hd
  rw [passFraction, if_neg hahead]

/-- **A number is taken at its length.** -/
theorem number_eq_takeAs (w : Window) :
    number w = takeAs .number (Piece.numberLength w.rest) w := by
  have hrest : (w.take (w.rest.takeWhile isDigit).length).rest =
      w.rest.drop (w.rest.takeWhile isDigit).length := rest_take _ w
  rw [number, bind_eq_of_eq_ok (advanceWhile_isDigit w), Piece.numberLength]
  generalize (w.rest.takeWhile isDigit).length = whole at hrest ⊢
  split
  · rename_i d more hdrop
    cases hd : isDigit d with
    | true =>
      rw [bind_eq_of_eq_ok (passFraction_of_point (hrest.trans hdrop) hd), take_take, if_pos rfl,
        addNumber_take, Nat.add_assoc]
    | false =>
      have hnot : ∀ e more, (w.take whole).rest = '.' :: e :: more → isDigit e = false := by
        intro e more he
        rw [hrest, hdrop] at he
        cases he
        exact hd
      rw [bind_eq_of_eq_ok (passFraction_of_not_point hnot), if_neg (by simp), addNumber_take]
  · rename_i hnone
    have hnot : ∀ e more, (w.take whole).rest = '.' :: e :: more → isDigit e = false :=
      fun e more he => (hnone e more (hrest.symm.trans he)).elim
    rw [bind_eq_of_eq_ok (passFraction_of_not_point hnot), addNumber_take]

/-- A string is not closed at the end of the source. -/
theorem closeString_of_nil (h : w.rest = []) :
    closeString w = .ok () (w.addReport .unterminatedString) := by
  rw [closeString, if_pos (by simp [isAtEnd, h])]

/-- A string is closed by its quotation mark. -/
theorem closeString_of_cons (h : w.rest = c :: rest) (hc : c ≠ '\n') :
    closeString w = .ok () ((w.take 1).recorded .string) := by
  rw [closeString, if_neg (by simp [isAtEnd, h]), bind_eq_of_eq_ok (discard_advance h),
    shift_one_eq_take h hc]
  rfl

/-- What is left behind the characters of a string starts with its closing quotation mark, if
anything is left. -/
theorem eq_quote_of_drop {cs : List Char} {d : Char} {more : List Char}
    (h : cs.drop (cs.takeWhile (· ≠ '"')).length = d :: more) : d = '"' := by
  induction cs with
  | nil => cases h
  | cons c cs ih =>
    by_cases hc : c = '"'
    · rw [List.takeWhile_cons_of_neg (by simp [hc])] at h
      obtain ⟨rfl, -⟩ := List.cons.inj h
      exact hc
    · rw [List.takeWhile_cons_of_pos (by simp [hc]), List.length_cons, List.drop_succ_cons] at h
      exact ih h

/-- **A string is taken at its length**, and all that is left if it is never closed. -/
theorem string_eq_takeAs (w : Window) :
    string w = match Piece.stringLength? w.rest with
      | some n => takeAs .string n w
      | none => takeAs .unterminated w.rest.length w := by
  have hpass : advanceWhile true (fun w => w.peek != '"' && !w.isAtEnd) w =
      .ok () (w.take (w.rest.takeWhile (· ≠ '"')).length) :=
    advanceWhile_eq_take (peek_ne_and_not_isAtEnd '"') (.inl rfl) w
  have hrest : (w.take (w.rest.takeWhile (· ≠ '"')).length).rest =
      w.rest.drop (w.rest.takeWhile (· ≠ '"')).length := rest_take _ w
  have hle : (w.rest.takeWhile (· ≠ '"')).length ≤ w.rest.length :=
    (List.takeWhile_sublist _).length_le
  rw [string, bind_eq_of_eq_ok hpass, Piece.stringLength?]
  cases hdrop : w.rest.drop (w.rest.takeWhile (· ≠ '"')).length with
  | nil =>
    have hlength : (w.rest.takeWhile (· ≠ '"')).length = w.rest.length :=
      Nat.le_antisymm hle (List.drop_eq_nil_iff.1 hdrop)
    rw [closeString_of_nil (hrest.trans hdrop), hlength, if_neg (Nat.lt_irrefl _)]
    show _ = takeAs .unterminated w.rest.length w
    rw [takeAs_of_ne (by simp)]
    rfl
  | cons d more =>
    obtain rfl := eq_quote_of_drop hdrop
    have hlt : (w.rest.takeWhile (· ≠ '"')).length < w.rest.length := by
      refine Nat.lt_of_not_le fun hge => ?_
      rw [List.drop_eq_nil_iff.2 hge] at hdrop
      cases hdrop
    rw [closeString_of_cons (hrest.trans hdrop) (by decide), take_take, if_pos hlt]
    show _ = takeAs .string _ w
    rw [takeAs_of_ne (by simp)]

/-! ## Tokens -/

/-- A piece that goes on behind its first character is taken from there. -/
theorem takeAs_take (kind : PieceKind) (m n : Nat) (w : Window) :
    takeAs kind n (w.take m) = takeAs kind (m + n) w := by
  rw [takeAs, takeAs, take_take]

/-- **A comment is taken at its length.** -/
theorem comment_eq_takeAs (w : Window) :
    comment w = takeAs .comment (Piece.commentLength w.rest) w := by
  rw [takeAs_of_ne (by simp)]
  exact advanceWhile_eq_take (peek_ne_and_not_isAtEnd '\n') (.inr (by simp)) w

/-- A character that is there is accepted. -/
theorem accept_of_cons (h : w.rest = c :: rest) : accept c w = .ok true (w.shift 1) := by
  rw [accept, if_pos (by simp [h])]

/-- No other character is accepted. -/
theorem accept_of_ne (h : w.rest.head? ≠ some c) : accept c w = .ok false w := by
  rw [accept, if_neg h]

/-- A character that another one may follow is taken with it, or alone. -/
theorem accept_bind_of_take {d : Char} (h : (w.take 1).rest = rest) (hd : d ≠ '\n')
    (next : Bool → Step Unit) :
    (accept d >>= next) (w.take 1) =
      if rest.head? = some d then next true (w.take 2) else next false (w.take 1) := by
  split
  · rename_i hhead
    obtain ⟨more, rfl⟩ := List.head?_eq_some_iff.1 hhead
    rw [bind_eq_of_eq_ok (accept_of_cons h), shift_one_eq_take h hd, take_take]
  · rename_i hhead
    rw [bind_eq_of_eq_ok (accept_of_ne (h ▸ hhead))]

/-- What is done behind a character depends on the form that it announces. -/
theorem scanBehind_eq (c : Char) : scanBehind c =
    match Piece.head c with
    | .single kind => modify (addToken kind none)
    | .growing withEqual alone =>
      accept '=' >>= fun grown => modify (addToken (if grown then withEqual else alone) none)
    | .slash => accept '/' >>= fun more => if more then comment else modify (addToken .slash none)
    | .blank => if c = '\n' then modify countLine else pure ()
    | .quote => string
    | .digit => number
    | .letter => word
    | .other => modify (addReport .unexpectedCharacter) := by
  fun_cases Piece.head c with
  | case1 kind hsingle => simp only [scanBehind, hsingle]
  | case2 withEqual alone hgrowing => simp only [scanBehind, hgrowing]
  | case3 hslash =>
    subst hslash
    rfl
  | case4 hslash hblank => rcases hblank with rfl | rfl | rfl | rfl <;> rfl
  | case5 hslash hblank hquote =>
    subst hquote
    rfl
  | case6 hslash hblank hquote hdigit =>
    rw [not_or, not_or, not_or] at hblank
    simp [scanBehind, hslash, hblank, hquote, hdigit]
  | case7 hslash hblank hquote hdigit hletter =>
    rw [not_or, not_or, not_or] at hblank
    simp [scanBehind, hslash, hblank, hquote, hdigit, hletter]
  | case8 hslash hblank hquote hdigit hletter =>
    rw [not_or, not_or, not_or] at hblank
    simp [scanBehind, hslash, hblank, hquote, hdigit, hletter]

/-- The token of an operator is added as a piece of that kind is. -/
theorem modify_addToken_take (kind : TokenKind) (n : Nat) (w : Window) :
    (modify (addToken kind none) : Step Unit) (w.take n) = takeAs (.operator kind) n w := by
  rw [takeAs_of_ne (by simp)]
  rfl

/-- A blank is taken, and it counts a line if it ends one. -/
theorem countLine_eq_takeAs (h : w.rest = c :: rest) :
    (if c = '\n' then modify countLine else pure () : Step Unit) (w.shift 1) =
      takeAs .blank 1 w := by
  rw [takeAs_of_ne (by simp)]
  split
  · rename_i hc
    subst hc
    show EStateM.Result.ok () (w.shift 1).countLine = _
    simp [recorded, Scan.record, countLine, take, shift, Scan.pass, h]
  · rename_i hc
    rw [shift_one_eq_take h hc]
    rfl

/-- **What a character starts is scanned as its piece is**: for each form as many more characters
are passed as the piece is measured at. -/
theorem scanBehind_eq_takeAs (h : w.rest = c :: rest) :
    scanBehind c (w.shift 1) = takeAs (Piece.measure c rest).1 ((Piece.measure c rest).2 + 1) w := by
  rw [scanBehind_eq, Piece.measure_eq]
  by_cases hblank : Piece.head c = .blank
  · rw [hblank]
    exact countLine_eq_takeAs h
  -- a line end announces a blank, so no other first character counts a line
  have hc : c ≠ '\n' := by
    rintro rfl
    exact hblank rfl
  have hbehind : (w.take 1).rest = rest := by simp [h]
  rw [shift_one_eq_take h hc]
  cases hhead : Piece.head c with
  | blank => exact absurd hhead hblank
  | single kind => exact modify_addToken_take kind 1 w
  | growing withEqual alone =>
    simp only [Piece.Head.measure]
    rw [accept_bind_of_take hbehind (by decide)]
    split
    · exact modify_addToken_take withEqual 2 w
    · exact modify_addToken_take alone 1 w
  | slash =>
    simp only [Piece.Head.measure]
    rw [accept_bind_of_take hbehind (by decide)]
    split
    · have htail : (w.take 2).rest = rest.tail := by simp [h]
      show comment (w.take 2) = _
      rw [comment_eq_takeAs, htail, takeAs_take, Nat.add_comm 2]
    · exact modify_addToken_take .slash 1 w
  | quote =>
    simp only [Piece.Head.measure]
    rw [string_eq_takeAs, hbehind]
    cases Piece.stringLength? rest with
    | some n => exact (takeAs_take _ _ _ w).trans (by rw [Nat.add_comm])
    | none => exact (takeAs_take _ _ _ w).trans (by rw [Nat.add_comm])
  | digit =>
    simp only [Piece.Head.measure]
    rw [number_eq_takeAs, hbehind, takeAs_take, Nat.add_comm]
  | letter =>
    simp only [Piece.Head.measure]
    rw [word_eq_takeAs, hbehind, takeAs_take, Nat.add_comm]
  | other =>
    simp only [Piece.Head.measure]
    rw [takeAs_of_ne (by simp)]
    rfl

/-- **Every token is scanned as its piece is.** -/
theorem scanToken_eq_scanPiece (w : Window) : scanToken w = scanPiece w := by
  cases hrest : w.rest with
  | nil =>
    rw [scanPiece, hrest]
    show EStateM.bind advance scanBehind w = _
    rw [EStateM.bind, advance, hrest]
  | cons c rest =>
    have hadvance : advance w = .ok c (w.shift 1) := by rw [advance, hrest]
    rw [scanToken, bind_eq_of_eq_ok hadvance, scanBehind_eq_takeAs hrest, scanPiece, hrest]

/-! ## Whole sources -/

/-- Behind a token fewer characters are left. -/
theorem length_rest_of_scanToken {w' : Window} (h : scanToken w = .ok () w') :
    w'.rest.length < w.rest.length := by
  rw [scanToken_eq_scanPiece] at h
  unfold scanPiece takeAs at h
  cases hrest : w.rest with
  | nil =>
    rw [hrest] at h
    cases h
  | cons c rest =>
    rw [hrest] at h
    simp only at h
    split at h
    · cases h
    · cases h
      simp only [recorded, take, shift, hrest, List.length_drop, List.length_cons]
      omega

/-- **Scans all tokens**: as long as characters are left, the next token starts at the cursor and is
scanned. Then the list is closed. -/
def scanAll : Step Unit := fun w =>
  if w.isAtEnd then .ok () { w with found := w.found.finish }
  else
    match h : scanToken w.mark with
    | .ok _ w' =>
      have : w'.rest.length < w.rest.length := (length_rest_of_scanToken h :)
      scanAll w'
    | .error e w' => .error e w'
termination_by w => w.rest.length

/-- Scanning goes through from any window, and finds what the pieces of the characters that are left
stand for. The induction is on the characters, of which each token takes a piece. -/
theorem exists_scanAll_eq_ok (w : Window) :
    ∃ w', scanAll w = .ok () w' ∧ w'.rest = [] ∧
      w'.found = (w.found.addPieces w.rest).finish := by
  induction hn : w.rest.length using Nat.strongRecOn generalizing w with
  | ind n ih =>
    rw [scanAll]
    by_cases hrest : w.rest = []
    · refine ⟨{ w with found := w.found.finish }, if_pos (by simp [isAtEnd, hrest]), hrest, ?_⟩
      rw [hrest, Scan.addPieces]
    · obtain ⟨c, rest, hcons⟩ := List.exists_cons_of_ne_nil hrest
      have hscans := (scanToken_eq_scanPiece w.mark).trans (scanPiece_mark hcons)
      rw [if_neg (by simp [isAtEnd, hrest])]
      split
      · rename_i w₁ hw₁
        have hlt : w₁.rest.length < n := hn ▸ (length_rest_of_scanToken hw₁ :)
        obtain ⟨w', hw', hend, hfound⟩ := ih _ hlt w₁ rfl
        cases hscans.symm.trans hw₁
        rw [addPieces_behind_piece hcons] at hfound
        exact ⟨w', hw', hend, hfound⟩
      · rename_i hfails
        cases hscans.symm.trans hfails

/-- **Scanning character by character finds all of `scan`.** -/
theorem exists_scanAll_ofSource (source : Source) :
    ∃ w, scanAll (ofSource source) = .ok () w ∧ w.rest = [] ∧ w.found = scan source :=
  exists_scanAll_eq_ok (ofSource source)

/-- The windows that are gone through token by token are those that are gone through piece by
piece. -/
theorem Reached.scanToken {source : Source} {w w' : Window} (h : Reached source w)
    (hw : scanToken w.mark = .ok () w') : Reached source w' :=
  h.step ((scanToken_eq_scanPiece _).symm.trans hw)

end Lox.Window
