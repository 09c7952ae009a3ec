import Lox.Report
import Lox.Source.Piece
import Lox.Text.Utf8

/-! # Scanning a program text

A `Source` is the text of a program as bytes, one character for each. Scanning cuts it into pieces,
counts the lines, and turns each piece into a token, a report, or nothing; an end token closes the
list. The lines are those of a piece's last character, so a string over several lines carries the
line of its closing quotation mark.

* **`Scan.add`** — what one piece adds to the tokens and reports found so far;
* **`Scan.add_cut`** — it counts lines only if it is a blank or a string;
* **`scan`** — the tokens and reports of a whole source;
* **`Scan.addPieces_eq_foldl`** — scanning adds the pieces one after the other. -/

namespace Lox

/-- The text of a program as bytes, each one as the character of its number. -/
abbrev Source := List Char

namespace Source

/-- A text as the bytes of its UTF-8 form. -/
def ofText (text : String) : Source := Text.toBytes text

/-- Bytes as they stand in a file. -/
def ofBytes (bytes : List UInt8) : Source := bytes.map fun b => Char.ofNat b.toNat

end Source

/-- The tokens and reports found so far, and the line reached. -/
structure Scan where
  line : Nat := 1
  tokens : Array Token := #[]
  errors : Array LexicalError := #[]

namespace Scan

/-- Counts the line ends among characters that were passed. -/
def pass (cs : List Char) (s : Scan) : Scan := { s with line := s.line + cs.count '\n' }

/-- Adds a token that ends on the line reached. -/
def push (kind : TokenKind) (text : List Char) (literal : Option Value) (s : Scan) : Scan :=
  { s with tokens := s.tokens.push ⟨kind, String.ofList text, literal, s.line⟩ }

/-- Adds a report for the line reached. -/
def report (kind : LexicalErrorKind) (s : Scan) : Scan :=
  { s with errors := s.errors.push ⟨s.line, kind⟩ }

/-- The value of a number literal. -/
def numberLiteral (text : List Char) : Option Value := (Numeral.read? text).map Value.number

/-- The value of a string literal: the text between its quotation marks. -/
def stringLiteral (text : List Char) : Option Value :=
  some (.string (Text.ofBytes text.tail.dropLast))

/-- Adds what a piece of the given kind and characters stands for. -/
def record (kind : PieceKind) (text : List Char) (s : Scan) : Scan :=
  match kind with
  | .blank | .comment => s
  | .operator kind => s.push kind text none
  | .number => s.push .number text (numberLiteral text)
  | .word => s.push (.ofWord (String.ofList text)) text none
  | .string => s.push .string text (stringLiteral text)
  | .unexpected => s.report .unexpectedCharacter
  | .unterminated => s.report .unterminatedString

/-- Adds a piece: first the lines it passes, then what it stands for. -/
def add (s : Scan) (p : Piece) : Scan := (s.pass p.text).record p.kind p.text

/-- Lines are counted where a piece is a blank or a string; no other piece passes any. -/
theorem add_cut (s : Scan) (c : Char) (rest : List Char) :
    let p := (Piece.cut c rest).1
    s.add p = (if p.kind.holdsLineEnds then s.pass p.text else s).record p.kind p.text := by
  intro p
  split
  · rfl
  · rename_i h
    have hlines : p.text.count '\n' = 0 :=
      List.count_eq_zero.2 (Piece.newline_notMem_cut (Bool.not_eq_true _ ▸ h))
    rw [add, pass, hlines]
    rfl

/-- Adds the pieces of a text. -/
def addPieces (s : Scan) : Source → Scan
  | [] => s
  | c :: rest => (s.add (Piece.cut c rest).1).addPieces (Piece.cut c rest).2
termination_by cs => cs.length
decreasing_by
  have := Piece.length_rest_le c rest
  rw [List.length_cons]
  omega

/-- Scanning adds the pieces one after the other. -/
theorem addPieces_eq_foldl (s : Scan) (cs : Source) :
    s.addPieces cs = (pieces cs).foldl add s := by
  fun_induction addPieces s cs with
  | case1 s => simp
  | case2 s c rest ih => simp [pieces_cons, ih]

/-- Closes the list of tokens. -/
def finish (s : Scan) : Scan := s.push .endOfInput [] none

end Scan

/-- **The tokens and reports of a source.** -/
def scan (source : Source) : Scan := ({ : Scan }.addPieces source).finish

end Lox
