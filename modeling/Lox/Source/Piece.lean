import Lox.Decimal.Numeral
import Lox.Token

/-! # Pieces of a program text

A program text is cut, from left to right, into pieces: each piece is the longest one that the text
in front of the reader allows. A character that starts no piece is a piece of its own, and so is
the rest of the text from a quotation mark that is never closed.

* **`Piece.measure`** — the kind of the first piece, and how many characters it takes after its
  first one;
* **`Piece.cut`** — the first piece and what follows it; nothing is lost (`Piece.text_append_rest`)
  and every piece takes at least one character (`Piece.length_rest_le`);
* **`Piece.newline_notMem_cut`** — the only pieces that hold line ends are blanks and strings;
* **`pieces`** — all pieces of a text; put together they are the text again (`flatten_pieces`). -/

namespace Lox

/-! ## Classes of characters -/

export Numeral (isDigit)

/-- A letter of the ASCII range, or the underscore. -/
def isLetter (c : Char) : Bool :=
  'a' ≤ c && c ≤ 'z' || 'A' ≤ c && c ≤ 'Z' || c == '_'

/-- A character that may stand inside a word. -/
def isWordChar (c : Char) : Bool := isLetter c || isDigit c

/-- The characters that are a token each. -/
def singleOperator? : Char → Option TokenKind
  | '(' => some .leftParen
  | ')' => some .rightParen
  | '{' => some .leftBrace
  | '}' => some .rightBrace
  | ',' => some .comma
  | '.' => some .dot
  | '-' => some .minus
  | '+' => some .plus
  | ';' => some .semicolon
  | '*' => some .star
  | _ => none

/-- The characters that are a token alone and another one with an equals sign behind them. -/
def growingOperator? : Char → Option (TokenKind × TokenKind)
  | '!' => some (.bangEqual, .bang)
  | '=' => some (.equalEqual, .equal)
  | '<' => some (.lessEqual, .less)
  | '>' => some (.greaterEqual, .greater)
  | _ => none

/-! ## The first piece -/

/-- What a piece of a program text is. -/
inductive PieceKind
  | blank
  | comment
  | operator (kind : TokenKind)
  | number
  | word
  | string
  | unexpected
  | unterminated
deriving DecidableEq, Repr

/-- Whether a piece of a kind may hold line ends: a blank is one, and a string goes on behind one,
whether it is closed or not. -/
def PieceKind.holdsLineEnds : PieceKind → Bool
  | .blank | .string | .unterminated => true
  | .comment | .operator _ | .number | .word | .unexpected => false

/-- A piece of a program text with its characters. -/
structure Piece where
  kind : PieceKind
  text : List Char
deriving DecidableEq, Repr

namespace Piece

/-- How many characters continue a number: digits, and a point with more digits if there are any
behind it. -/
def numberLength (rest : List Char) : Nat :=
  let whole := (rest.takeWhile isDigit).length
  match rest.drop whole with
  | '.' :: d :: more =>
    if isDigit d then whole + 1 + ((d :: more).takeWhile isDigit).length else whole
  | _ => whole

/-- How many characters continue a word. -/
def wordLength (rest : List Char) : Nat := (rest.takeWhile isWordChar).length

/-- How many characters continue a string up to its closing quotation mark, if there is one. -/
def stringLength? (rest : List Char) : Option Nat :=
  let body := (rest.takeWhile (· ≠ '"')).length
  if body < rest.length then some (body + 1) else none

/-- How many characters a comment has behind its two slashes; the end of the line is not one of
them. -/
def commentLength (rest : List Char) : Nat := (rest.takeWhile (· ≠ '\n')).length

/-- **The kind of the first piece** of a text that starts with `c`, and how many characters of
`rest` belong to it. -/
def measure (c : Char) (rest : List Char) : PieceKind × Nat :=
  if let some kind := singleOperator? c then (.operator kind, 0)
  else if let some (withEqual, alone) := growingOperator? c then
    match rest with
    | '=' :: _ => (.operator withEqual, 1)
    | _ => (.operator alone, 0)
  else if c = '/' then
    match rest with
    | '/' :: more => (.comment, commentLength more + 1)
    | _ => (.operator .slash, 0)
  else if c = ' ' ∨ c = '\r' ∨ c = '\t' ∨ c = '\n' then (.blank, 0)
  else if c = '"' then
    match stringLength? rest with
    | some n => (.string, n)
    | none => (.unterminated, rest.length)
  else if isDigit c then (.number, numberLength rest)
  else if isLetter c then (.word, wordLength rest)
  else (.unexpected, 0)

/-- The first piece of a text, and the text behind it. -/
def cut (c : Char) (rest : List Char) : Piece × List Char :=
  let (kind, n) := measure c rest
  (⟨kind, c :: rest.take n⟩, rest.drop n)

/-- Cutting loses nothing. -/
theorem text_append_rest (c : Char) (rest : List Char) :
    (cut c rest).1.text ++ (cut c rest).2 = c :: rest := by
  simp [cut]

/-- A piece takes at least one character. -/
theorem length_rest_le (c : Char) (rest : List Char) :
    (cut c rest).2.length ≤ rest.length := by
  simp [cut]

/-! ## Line ends in pieces -/

/-- A run of a class has no character that is not of the class. -/
theorem notMem_take_takeWhile {p : Char → Bool} {d : Char} (h : p d = false) (cs : List Char) :
    d ∉ cs.take (cs.takeWhile p).length := by
  rw [← List.prefix_iff_eq_take.1 (List.takeWhile_prefix p)]
  intro hd
  have hp := List.all_eq_true.1 List.all_takeWhile d hd
  rw [h] at hp
  cases hp

/-- A number is continued by digits and a point. -/
theorem notMem_take_numberLength {d : Char} (h : isDigit d = false) (hpoint : d ≠ '.')
    (cs : List Char) : d ∉ cs.take (numberLength cs) := by
  have hwhole := notMem_take_takeWhile h cs
  simp only [numberLength]
  split
  · rename_i e more hdrop
    split
    · have hmore := notMem_take_takeWhile h (e :: more)
      rw [Nat.add_assoc, List.take_add, hdrop, Nat.add_comm 1, List.take_succ_cons]
      simp only [List.mem_append, List.mem_cons, hwhole, hmore, hpoint, or_self, not_false_eq_true]
    · exact hwhole
  · exact hwhole

/-- **Only blanks and strings hold line ends.** -/
theorem newline_notMem_cut {c : Char} {rest : List Char}
    (h : (cut c rest).1.kind.holdsLineEnds = false) : '\n' ∉ (cut c rest).1.text := by
  have hc : c ≠ '\n' := by
    rintro rfl
    cases h
  have hrest : '\n' ∉ rest.take (measure c rest).2 := by
    have hkind : (measure c rest).1.holdsLineEnds = false := h
    revert hkind
    fun_cases measure c rest with
    | case2 => simp
    | case4 hslash more =>
      have hmore : '\n' ∉ more.take (commentLength more) := notMem_take_takeWhile (by simp) more
      simp [hmore]
    | case9 => exact fun _ => notMem_take_numberLength (by decide) (by decide) rest
    | case10 => exact fun _ => notMem_take_takeWhile (by decide) rest
    | case1 | case3 | case5 | case6 | case11 => simp
    | case7 | case8 => nofun
  exact List.not_mem_cons_of_ne_of_not_mem hc.symm hrest

end Piece

/-! ## All pieces -/

/-- The pieces of a text, from left to right. -/
def pieces : List Char → List Piece
  | [] => []
  | c :: rest => (Piece.cut c rest).1 :: pieces (Piece.cut c rest).2
termination_by cs => cs.length
decreasing_by
  have := Piece.length_rest_le c rest
  rw [List.length_cons]
  omega

@[simp] theorem pieces_nil : pieces [] = [] := by simp [pieces]

theorem pieces_cons (c : Char) (rest : List Char) :
    pieces (c :: rest) = (Piece.cut c rest).1 :: pieces (Piece.cut c rest).2 := by
  rw [pieces]

/-- **The pieces of a text put together are the text.** -/
theorem flatten_pieces (cs : List Char) : ((pieces cs).map Piece.text).flatten = cs := by
  fun_induction pieces cs with
  | case1 => rfl
  | case2 c rest ih => simp [ih, Piece.text_append_rest]

end Lox
