import Lox.Fault
import Lox.Source.Scan

/-! # Scanning step by step

A `Window` is a scan that can be stopped anywhere: the characters between its start and its cursor
are the ones the next token is made of. Marking moves the start to the cursor; every other step
moves the cursor only.

A token is scanned in one of two ways. Character by character, a loop looks at the character behind
the cursor, or at NUL where there is none, and moves on over it; line ends are counted where one
stands between tokens, and inside of strings. Piece by piece, as many characters are taken as the
piece is measured at.

* **`Window.advance`**, **`Window.accept`** — steps over one character;
* **`Window.advanceWhile`** — the loop that passes characters;
* **`Window.word`**, **`Window.number`**, **`Window.string`**, **`Window.comment`** — what is passed
  in loops;
* **`Window.scanToken`** — the next token, character by character;
* **`Window.scanPiece`** — the next piece. -/

namespace Lox

/-- The characters from the start of the token in hand to the cursor, the ones behind the cursor,
and what was found so far. -/
structure Window where
  start : Nat := 0
  text : List Char := []
  rest : List Char
  found : Scan := {}

namespace Window

/-- A window in front of the first character of a source. -/
def ofSource (source : Source) : Window := { rest := source }

/-- How many characters stand before the cursor. -/
def position (w : Window) : Nat := w.start + w.text.length

/-- Starts the next token at the cursor. -/
def mark (w : Window) : Window := { w with start := w.position, text := [] }

@[simp] theorem position_mark (w : Window) : w.mark.position = w.position := by
  simp [mark, position]

/-- Moves the cursor over `n` characters, without counting lines. -/
def shift (n : Nat) (w : Window) : Window :=
  { w with text := w.text ++ w.rest.take n, rest := w.rest.drop n }

/-- Moves the cursor over `n` characters and counts the line ends among them. -/
def take (n : Nat) (w : Window) : Window :=
  { w.shift n with found := w.found.pass (w.rest.take n) }

@[simp] theorem rest_take (n : Nat) (w : Window) : (w.take n).rest = w.rest.drop n := rfl

/-- Nothing is left behind the cursor. -/
def isAtEnd (w : Window) : Bool := w.rest.isEmpty

/-- The character behind the cursor, or NUL at the end. -/
def peek (w : Window) : Char := w.rest.headD '\x00'

/-- The second character behind the cursor, or NUL where there is none. -/
def peekNext (w : Window) : Char := w.rest.tail.headD '\x00'

/-! ## Steps

A step may fail; the window it leaves then is the one it had reached. -/

/-- A step on a window. -/
abbrev Step := EStateM Fault Window

/-- Moves the cursor over one character, whatever it is; lines are not counted. -/
def advance : Step Char := fun w =>
  match w.rest with
  | [] => .error .endOfSource w
  | c :: _ => .ok c (w.shift 1)

/-- Moves the cursor over one character if it is the given one. -/
def accept (c : Char) : Step Bool := fun w =>
  if w.rest.head? = some c then .ok true (w.shift 1) else .ok false w

/-- Adds a token made of the characters of the window. -/
def addToken (kind : TokenKind) (literal : Option Value) (w : Window) : Window :=
  { w with found := w.found.push kind w.text literal }

/-- Adds a report for the line reached. -/
def addReport (kind : LexicalErrorKind) (w : Window) : Window :=
  { w with found := w.found.report kind }

/-- Counts a line. -/
def countLine (w : Window) : Window :=
  { w with found := { w.found with line := w.found.line + 1 } }

/-! ## Character by character -/

/-- Moves the cursor over one character; where lines are counted, a line end is one. -/
def pass (counting : Bool) : Step Unit := fun w =>
  discard advance (if counting && w.peek == '\n' then w.countLine else w)

/-- At the end of a source there is nothing to pass. -/
theorem pass_of_nil {w : Window} (h : w.rest = []) (counting : Bool) :
    pass counting w = .error .endOfSource w := by
  obtain ⟨start, text, rest, found⟩ := w
  cases h
  cases counting <;> rfl

/-- A character is passed. -/
theorem pass_of_cons {w : Window} {c : Char} {rest : List Char} (h : w.rest = c :: rest)
    (counting : Bool) :
    pass counting w = .ok () ((if counting && c == '\n' then w.countLine else w).shift 1) := by
  obtain ⟨start, text, rest, found⟩ := w
  cases h
  rw [pass]
  show discard advance (if counting && c == '\n' then _ else _) = _
  split <;> rfl

/-- Behind a character fewer are left. -/
theorem length_rest_of_pass {counting : Bool} {w w' : Window} (h : pass counting w = .ok () w') :
    w'.rest.length < w.rest.length := by
  cases hrest : w.rest with
  | nil =>
    rw [pass_of_nil hrest] at h
    cases h
  | cons c rest =>
    rw [pass_of_cons hrest] at h
    cases h
    split <;> simp [shift, countLine, hrest]

/-- **Passes characters as long as the window goes on.** -/
def advanceWhile (counting : Bool) (goesOn : Window → Bool) : Step Unit := fun w =>
  if goesOn w then
    match h : pass counting w with
    | .ok _ w' =>
      have : w'.rest.length < w.rest.length := length_rest_of_pass h
      advanceWhile counting goesOn w'
    | .error e w' => .error e w'
  else .ok () w
termination_by w => w.rest.length

/-- Passes the rest of a word and adds its token. -/
def word : Step Unit := do
  advanceWhile false fun w => isWordChar w.peek
  modify fun w => w.addToken (.ofWord (String.ofList w.text)) none

/-- Adds the number that the characters of the window denote; they must be a numeral. -/
def addNumber : Step Unit := fun w =>
  match Numeral.read? w.text with
  | some n => .ok () (w.addToken .number (some (.number n)))
  | none => .error (.malformedNumeral (String.ofList w.text)) w

/-- Passes a point and the digits behind it, if there are any behind it. -/
def passFraction : Step Unit := fun w =>
  if w.peek == '.' && isDigit w.peekNext then
    (do
      discard advance
      advanceWhile false fun w => isDigit w.peek : Step Unit) w
  else .ok () w

/-- Passes the rest of a number and adds its token. -/
def number : Step Unit := do
  advanceWhile false fun w => isDigit w.peek
  passFraction
  addNumber

/-- Passes the closing quotation mark of a string and adds its token, or reports at the end of the
source that there is none. -/
def closeString : Step Unit := fun w =>
  if w.isAtEnd then .ok () (w.addReport .unterminatedString)
  else
    (do
      discard advance
      modify fun w => w.addToken .string (Scan.stringLiteral w.text) : Step Unit) w

/-- Passes the rest of a string and adds its token. -/
def string : Step Unit := do
  advanceWhile true fun w => w.peek != '"' && !w.isAtEnd
  closeString

/-- Passes the rest of a comment; the line end behind it is left. -/
def comment : Step Unit := advanceWhile false fun w => w.peek != '\n' && !w.isAtEnd

/-- Scans what a character starts that the cursor has moved over. -/
def scanBehind (c : Char) : Step Unit := do
  if let some kind := singleOperator? c then modify (addToken kind none)
  else if let some (withEqual, alone) := growingOperator? c then
    let grown ← accept '='
    modify (addToken (if grown then withEqual else alone) none)
  else if c = '/' then
    if ← accept '/' then comment else modify (addToken .slash none)
  else if c = ' ' ∨ c = '\r' ∨ c = '\t' then return
  else if c = '\n' then modify countLine
  else if c = '"' then string
  else if isDigit c then number
  else if isLetter c then word
  else modify (addReport .unexpectedCharacter)

/-- **Scans the next token**, or what stands between two. -/
def scanToken : Step Unit := advance >>= scanBehind

/-! ## Piece by piece -/

/-- Adds what the characters of the window stand for as a piece of the given kind. -/
def recorded (kind : PieceKind) (w : Window) : Window :=
  { w with found := w.found.record kind w.text }

/-- Takes `n` more characters and adds what the window then stands for. Of a number the characters
must be a numeral. -/
def takeAs (kind : PieceKind) (n : Nat) : Step Unit := fun w =>
  let w := w.take n
  if kind = .number ∧ Numeral.read? w.text = none then
    .error (.malformedNumeral (String.ofList w.text)) w
  else .ok () (w.recorded kind)

/-- Takes the piece behind the cursor and adds what the window then stands for. -/
def scanPiece : Step Unit := fun w =>
  match w.rest with
  | [] => .error .endOfSource w
  | c :: rest => takeAs (Piece.measure c rest).1 ((Piece.measure c rest).2 + 1) w

end Window

end Lox
