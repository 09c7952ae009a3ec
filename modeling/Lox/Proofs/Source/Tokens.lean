import Lox.Proofs.Source.Heads
import Lox.Source.Window

/-! # The tokens of a source

Each piece of a source stands for one token, one report, or nothing, on the line that its last
character is on; scanning lists them in order and adds the end token.

* **`Piece.token?`**, **`Piece.error?`** — what a piece stands for;
* **`toList_tokens_scan`**, **`toList_errors_scan`** — what scanning lists;
* **`Token.Scanned`** — no token but the last one is an end token, and every number and string has
  its literal (`scanned_of_mem_tokensOf`);
* **`Window.scanPiece_mark`** — scanning a piece from its start never fails;
* **`Source.scansThrough`** — scanning piece by piece goes through, and lists the same. -/

namespace Lox

/-! ## What a piece stands for -/

namespace Piece

/-- The line ends among the characters of a piece. -/
def lines (p : Piece) : Nat := p.text.count '\n'

/-- The token that a piece stands for, if its last character is on the given line. -/
def token? (line : Nat) (p : Piece) : Option Token :=
  match p.kind with
  | .operator kind => some ⟨kind, String.ofList p.text, none, line⟩
  | .number => some ⟨.number, String.ofList p.text, Scan.numberLiteral p.text, line⟩
  | .word => some ⟨.ofWord (String.ofList p.text), String.ofList p.text, none, line⟩
  | .string => some ⟨.string, String.ofList p.text, Scan.stringLiteral p.text, line⟩
  | .blank | .comment | .unexpected | .unterminated => none

/-- The report that a piece stands for, if its last character is on the given line. -/
def error? (line : Nat) (p : Piece) : Option LexicalError :=
  match p.kind with
  | .unexpected => some ⟨line, .unexpectedCharacter⟩
  | .unterminated => some ⟨line, .unterminatedString⟩
  | .blank | .comment | .operator _ | .number | .word | .string => none

/-- The lexeme of a token is the text of its piece. -/
theorem text_eq_of_token? {p : Piece} {line : Nat} {t : Token} (h : p.token? line = some t) :
    p.text = t.lexeme.toList := by
  obtain ⟨kind, text⟩ := p
  cases kind <;> cases h <;> exact String.toList_ofList.symm

end Piece

/-- The tokens of pieces that follow one another, behind the given line. -/
def tokensOf (line : Nat) : List Piece → List Token
  | [] => []
  | p :: rest => (p.token? (line + p.lines)).toList ++ tokensOf (line + p.lines) rest

/-- The reports of pieces that follow one another, behind the given line. -/
def errorsOf (line : Nat) : List Piece → List LexicalError
  | [] => []
  | p :: rest => (p.error? (line + p.lines)).toList ++ errorsOf (line + p.lines) rest

/-- The line reached behind some pieces. -/
def lineBehind (line : Nat) : List Piece → Nat
  | [] => line
  | p :: ps => lineBehind (line + p.lines) ps

@[simp] theorem lineBehind_nil (line : Nat) : lineBehind line [] = line := rfl

@[simp] theorem lineBehind_cons (line : Nat) (p : Piece) (ps : List Piece) :
    lineBehind line (p :: ps) = lineBehind (line + p.lines) ps := rfl

/-- The tokens of two parts follow one another. -/
theorem tokensOf_append (line : Nat) (ps qs : List Piece) :
    tokensOf line (ps ++ qs) = tokensOf line ps ++ tokensOf (lineBehind line ps) qs := by
  induction ps generalizing line with
  | nil => rfl
  | cons p ps ih => simp [tokensOf, ih]

/-- The reports of two parts follow one another. -/
theorem errorsOf_append (line : Nat) (ps qs : List Piece) :
    errorsOf line (ps ++ qs) = errorsOf line ps ++ errorsOf (lineBehind line ps) qs := by
  induction ps generalizing line with
  | nil => rfl
  | cons p ps ih => simp [errorsOf, ih]

/-! ## What scanning lists -/

namespace Scan

/-- A piece adds the lines it passes and what it stands for. -/
theorem add_eq (s : Scan) (p : Piece) :
    s.add p =
      { line := s.line + p.lines
        tokens := s.tokens ++ (p.token? (s.line + p.lines)).toArray
        errors := s.errors ++ (p.error? (s.line + p.lines)).toArray } := by
  obtain ⟨kind, text⟩ := p
  cases kind <;> simp [add, pass, record, push, report, Piece.token?, Piece.error?, Piece.lines]

/-- Pieces add what they stand for, in order. -/
theorem foldl_add (s : Scan) (ps : List Piece) :
    (ps.foldl add s).line = lineBehind s.line ps ∧
      (ps.foldl add s).tokens.toList = s.tokens.toList ++ tokensOf s.line ps ∧
      (ps.foldl add s).errors.toList = s.errors.toList ++ errorsOf s.line ps := by
  induction ps generalizing s with
  | nil => simp [tokensOf, errorsOf]
  | cons p ps ih =>
    obtain ⟨hline, htokens, herrors⟩ := ih (s.add p)
    rw [List.foldl_cons, hline, htokens, herrors, add_eq]
    simp [tokensOf, errorsOf]

end Scan

/-- The end token of a source. -/
def endToken (source : Source) : Token :=
  ⟨.endOfInput, "", none, (lineBehind 1 (pieces source) : Nat)⟩

/-- **The tokens of a source** are those of its pieces, and the end token. -/
theorem toList_tokens_scan (source : Source) :
    (scan source).tokens.toList = tokensOf 1 (pieces source) ++ [endToken source] := by
  obtain ⟨hline, htokens, -⟩ := Scan.foldl_add {} (pieces source)
  rw [scan, Scan.addPieces_eq_foldl, Scan.finish, Scan.push, Array.toList_push, htokens, hline]
  rfl

/-- **The reports of a source** are those of its pieces. -/
theorem toList_errors_scan (source : Source) :
    (scan source).errors.toList = errorsOf 1 (pieces source) := by
  obtain ⟨-, -, herrors⟩ := Scan.foldl_add {} (pieces source)
  rw [scan, Scan.addPieces_eq_foldl, Scan.finish, Scan.push, herrors]
  rfl

/-- The end token is one. -/
@[simp] theorem kind_endToken (source : Source) : (endToken source).kind = .endOfInput := rfl

/-! ## Literals -/

/-- The kinds of tokens that are made of operator characters. -/
def operatorKinds : List TokenKind :=
  [.leftParen, .rightParen, .leftBrace, .rightBrace, .comma, .dot, .minus, .plus, .semicolon,
    .star, .slash, .bangEqual, .bang, .equalEqual, .equal, .lessEqual, .less, .greaterEqual,
    .greater]

/-- A token alone is made of an operator character. -/
theorem mem_operatorKinds_of_single {c : Char} {kind : TokenKind}
    (h : singleOperator? c = some kind) : kind ∈ operatorKinds := by
  unfold singleOperator? at h
  split at h <;> simp at h <;> subst h <;> decide

/-- A token that an equals sign may follow is made of operator characters. -/
theorem mem_operatorKinds_of_growing {c : Char} {withEqual alone : TokenKind}
    (h : growingOperator? c = some (withEqual, alone)) :
    withEqual ∈ operatorKinds ∧ alone ∈ operatorKinds := by
  unfold growingOperator? at h
  split at h <;> simp at h <;> obtain ⟨rfl, rfl⟩ := h <;> decide

/-- A piece is an operator only if it is made of operator characters, and a number only if it is a
numeral. -/
structure Piece.Formed (p : Piece) : Prop where
  operator : ∀ kind, p.kind = .operator kind → kind ∈ operatorKinds
  number : p.kind = .number → Numeral.read? p.text ≠ none

/-- An operator piece is formed that way if it is made of operator characters. -/
theorem Piece.formed_operator {kind : TokenKind} {text : List Char} (h : kind ∈ operatorKinds) :
    Formed ⟨.operator kind, text⟩ where
  operator := by
    rintro _ ⟨⟩
    exact h
  number := by rintro ⟨⟩

/-- A number piece is formed that way if it is a numeral. -/
theorem Piece.formed_number {text : List Char} (h : Numeral.read? text ≠ none) :
    Formed ⟨.number, text⟩ where
  operator := by rintro _ ⟨⟩
  number := fun _ => h

/-- Nothing is asked of other pieces. -/
theorem Piece.formed_of_ne {kind : PieceKind} {text : List Char}
    (hoperator : ∀ k, kind ≠ .operator k) (hnumber : kind ≠ .number) : Formed ⟨kind, text⟩ where
  operator := fun k hk => absurd hk (hoperator k)
  number := fun hk => absurd hk hnumber

/-- Every piece that is cut off is formed that way. -/
theorem Piece.formed_cut (c : Char) (rest : List Char) : (cut c rest).1.Formed := by
  have hfits := fits_head c
  unfold cut
  rw [measure_eq]
  cases hhead : head c with
  | single kind =>
    rw [hhead] at hfits
    exact formed_operator (mem_operatorKinds_of_single hfits)
  | growing withEqual alone =>
    rw [hhead] at hfits
    obtain ⟨hwith, halone⟩ := mem_operatorKinds_of_growing hfits
    simp only [Head.measure]
    split
    · exact formed_operator hwith
    · exact formed_operator halone
  | slash =>
    simp only [Head.measure]
    split
    · exact formed_of_ne (by simp) (by simp)
    · exact formed_operator (by decide)
  | quote =>
    simp only [Head.measure]
    split
    · exact formed_of_ne (by simp) (by simp)
    · exact formed_of_ne (by simp) (by simp)
  | digit =>
    rw [hhead] at hfits
    exact formed_number (read?_number_ne_none hfits rest)
  | blank => exact formed_of_ne (by simp [Head.measure]) (by simp [Head.measure])
  | letter => exact formed_of_ne (by simp [Head.measure]) (by simp [Head.measure])
  | other => exact formed_of_ne (by simp [Head.measure]) (by simp [Head.measure])

/-- Every piece of a source is formed that way. -/
theorem Piece.formed_of_mem_pieces {cs : List Char} {p : Piece} (h : p ∈ pieces cs) :
    p.Formed := by
  fun_induction pieces cs with
  | case1 => cases h
  | case2 c rest ih =>
    rcases List.mem_cons.1 h with rfl | h
    · exact formed_cut c rest
    · exact ih h

/-- A token as it stands in front of the end token: it is none itself, and a number or a string has
its literal. -/
structure Token.Scanned (t : Token) : Prop where
  kind_ne : t.kind ≠ .endOfInput
  number : t.kind = .number → ∃ n, t.literal = some (.number n)
  string : t.kind = .string → ∃ s, t.literal = some (.string s)

/-- A word is a keyword or a name. -/
theorem TokenKind.ofWord_eq (word : String) :
    (∃ k, ofWord word = .keyword k) ∨ ofWord word = .identifier := by
  unfold ofWord
  split
  · exact .inl ⟨_, rfl⟩
  · exact .inr rfl

/-- What a piece stands for has its literal. -/
theorem Piece.Formed.scanned {p : Piece} (hp : p.Formed) {line : Nat} {t : Token}
    (h : p.token? line = some t) : t.Scanned := by
  obtain ⟨kind, text⟩ := p
  cases kind with
  | operator kind =>
    cases h
    have hmem := hp.operator kind rfl
    -- no operator is the end token, a number or a string
    have hall : ∀ k ∈ operatorKinds, k ≠ .endOfInput ∧ k ≠ .number ∧ k ≠ .string := by decide
    obtain ⟨hend, hnumber, hstring⟩ := hall kind hmem
    exact ⟨hend, fun h => absurd h hnumber, fun h => absurd h hstring⟩
  | number =>
    cases h
    refine ⟨nofun, fun _ => ?_, nofun⟩
    obtain ⟨n, hn⟩ := Option.ne_none_iff_exists'.1 (hp.number rfl)
    exact ⟨n, by simp [Scan.numberLiteral, hn]⟩
  | word =>
    cases h
    rcases TokenKind.ofWord_eq (String.ofList text) with ⟨k, hk⟩ | hk
    · exact ⟨by simp [hk], by simp [hk], by simp [hk]⟩
    · exact ⟨by simp [hk], by simp [hk], by simp [hk]⟩
  | string =>
    cases h
    exact ⟨nofun, nofun, fun _ => ⟨_, rfl⟩⟩
  | blank => cases h
  | comment => cases h
  | unexpected => cases h
  | unterminated => cases h

/-- **Every token of a source but the last has its literal and is no end token.** -/
theorem scanned_of_mem_tokensOf {ps : List Piece} (hps : ∀ p ∈ ps, p.Formed) {line : Nat}
    {t : Token} (h : t ∈ tokensOf line ps) : t.Scanned := by
  induction ps generalizing line with
  | nil => cases h
  | cons p ps ih =>
    rw [tokensOf, List.mem_append, Option.mem_toList] at h
    rcases h with h | h
    · exact (hps p List.mem_cons_self).scanned h
    · exact ih (fun q hq => hps q (List.mem_cons_of_mem p hq)) h

/-! ## Piece by piece -/

namespace Window

/-- **Scanning a piece from its start never fails** while characters are left, and adds what the
piece stands for. -/
theorem scanPiece_mark {w : Window} {c : Char} {rest : List Char} (h : w.rest = c :: rest) :
    scanPiece w.mark = .ok ()
      ((w.mark.take ((Piece.measure c rest).2 + 1)).recorded (Piece.measure c rest).1) := by
  have hrest : w.mark.rest = c :: rest := h
  have htext : (w.mark.take ((Piece.measure c rest).2 + 1)).text = (Piece.cut c rest).1.text := by
    simp [take, shift, mark, h, Piece.cut]
  have hformed := Piece.formed_cut c rest
  unfold scanPiece takeAs
  rw [hrest]
  simp only [htext]
  rw [if_neg]
  rintro ⟨hkind, hread⟩
  exact hformed.number hkind hread

/-- Behind a piece, what was found and what is left make up what they made up in front of it. -/
theorem addPieces_behind_piece {w : Window} {c : Char} {rest : List Char} (h : w.rest = c :: rest) :
    let w' := (w.mark.take ((Piece.measure c rest).2 + 1)).recorded (Piece.measure c rest).1
    w'.found.addPieces w'.rest = w.found.addPieces w.rest := by
  rw [h, Scan.addPieces]
  simp only [recorded, take, shift, mark, h, List.take_succ_cons, List.drop_succ_cons,
    List.nil_append, Scan.add, Piece.cut]

/-- The windows that scanning a source piece by piece goes through. -/
inductive Reached (source : Source) : Window → Prop
  | start : Reached source (ofSource source)
  | step {w w' : Window} (h : Reached source w) (hw : scanPiece w.mark = .ok () w') :
      Reached source w'

/-- What was found and what is left make up what scanning the whole source finds. -/
theorem Reached.finish_addPieces {source : Source} {w : Window} (h : Reached source w) :
    (w.found.addPieces w.rest).finish = scan source := by
  induction h with
  | start => rfl
  | @step w w' h hw ih =>
    cases hrest : w.rest with
    | nil =>
      have hmark : w.mark.rest = [] := hrest
      unfold scanPiece at hw
      rw [hmark] at hw
      cases hw
    | cons c rest =>
      rw [scanPiece_mark hrest] at hw
      cases hw
      rw [← ih, addPieces_behind_piece hrest]

end Window

/-- Scanning a source piece by piece goes through. While characters are left the next piece is
scanned, and fewer are left then; when none are left, what was found is all of `scan`. -/
structure Source.ScansThrough (source : Source) : Prop where
  step : ∀ w, Window.Reached source w → w.rest ≠ [] →
    ∃ w', Window.scanPiece w.mark = .ok () w' ∧ w'.rest.length < w.rest.length
  done : ∀ w, Window.Reached source w → w.rest = [] → w.found.finish = scan source

/-- **Scanning goes through**, whatever the source is. -/
theorem Source.scansThrough (source : Source) : ScansThrough source where
  step w hw hrest := by
    obtain ⟨c, rest, hcons⟩ := List.exists_cons_of_ne_nil hrest
    refine ⟨_, Window.scanPiece_mark hcons, ?_⟩
    simp only [Window.recorded, Window.take, Window.shift, Window.mark, hcons,
      List.drop_succ_cons, List.length_drop, List.length_cons]
    omega
  done w hw hrest := by
    have hfinish := hw.finish_addPieces
    rwa [hrest, Scan.addPieces] at hfinish

end Lox
