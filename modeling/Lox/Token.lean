import Lox.Value

/-! # Tokens

A token is the smallest unit the grammar is written in: its kind, the exact characters it was cut
from, the value of a number or string literal, and the line it ends on.

* **`Keyword`** — the reserved words, with their spelling;
* **`TokenKind`** — the kinds of tokens, with the name each is listed under;
* **`Token.describe`** — the line that lists a token. -/

namespace Lox

/-! ## Reserved words -/

/-- The reserved words of the language. Some of them start nothing yet. -/
inductive Keyword
  | andWord | classWord | elseWord | falseWord | forWord | funWord | ifWord | nilWord
  | orWord | printWord | returnWord | superWord | thisWord | trueWord | varWord | whileWord
deriving DecidableEq, Repr

namespace Keyword

/-- All reserved words. -/
def all : List Keyword :=
  [andWord, classWord, elseWord, falseWord, forWord, funWord, ifWord, nilWord,
    orWord, printWord, returnWord, superWord, thisWord, trueWord, varWord, whileWord]

/-- How a reserved word is written. -/
def spelling : Keyword → String
  | andWord => "and" | classWord => "class" | elseWord => "else" | falseWord => "false"
  | forWord => "for" | funWord => "fun" | ifWord => "if" | nilWord => "nil"
  | orWord => "or" | printWord => "print" | returnWord => "return" | superWord => "super"
  | thisWord => "this" | trueWord => "true" | varWord => "var" | whileWord => "while"

/-- The reserved word with a given spelling. -/
def ofSpelling? (word : String) : Option Keyword := all.find? (·.spelling = word)

theorem mem_all (k : Keyword) : k ∈ all := by cases k <;> decide

theorem spelling_of_ofSpelling? {word : String} {k : Keyword} (h : ofSpelling? word = some k) :
    k.spelling = word := by
  simpa using List.find?_some h

/-- The words that open a declaration or a statement: after a failure, reading resumes in front of
them. -/
def startsStatement : Keyword → Bool
  | classWord | funWord | varWord | forWord | ifWord | whileWord | printWord | returnWord => true
  | _ => false

end Keyword

/-! ## Kinds of tokens -/

/-- The kinds of tokens. -/
inductive TokenKind
  | leftParen | rightParen | leftBrace | rightBrace | comma | dot | minus | plus | semicolon
  | slash | star
  | bang | bangEqual | equal | equalEqual | greater | greaterEqual | less | lessEqual
  | identifier | string | number
  | keyword (word : Keyword)
  | endOfInput
deriving DecidableEq, Repr

namespace TokenKind

/-- All kinds of tokens. -/
def all : List TokenKind :=
  [leftParen, rightParen, leftBrace, rightBrace, comma, dot, minus, plus, semicolon, slash, star,
    bang, bangEqual, equal, equalEqual, greater, greaterEqual, less, lessEqual,
    identifier, string, number] ++ Keyword.all.map keyword ++ [endOfInput]

theorem mem_all (k : TokenKind) : k ∈ all := by
  cases k
  case keyword w => simp [all, Keyword.mem_all]
  all_goals decide

/-- The name under which a kind of token is listed. -/
def name : TokenKind → String
  | leftParen => "LEFT_PAREN" | rightParen => "RIGHT_PAREN"
  | leftBrace => "LEFT_BRACE" | rightBrace => "RIGHT_BRACE"
  | comma => "COMMA" | dot => "DOT" | minus => "MINUS" | plus => "PLUS"
  | semicolon => "SEMICOLON" | slash => "SLASH" | star => "STAR"
  | bang => "BANG" | bangEqual => "BANG_EQUAL" | equal => "EQUAL" | equalEqual => "EQUAL_EQUAL"
  | greater => "GREATER" | greaterEqual => "GREATER_EQUAL"
  | less => "LESS" | lessEqual => "LESS_EQUAL"
  | identifier => "IDENTIFIER" | string => "STRING" | number => "NUMBER"
  | keyword w => w.spelling.map Char.toUpper
  | endOfInput => "EOF"

/-- The kind a word of letters, digits and underscores has. -/
def ofWord (word : String) : TokenKind :=
  match Keyword.ofSpelling? word with
  | some k => keyword k
  | none => identifier

/-- The kinds that open a declaration or a statement. -/
def startsStatement : TokenKind → Bool
  | keyword w => w.startsStatement
  | _ => false

end TokenKind

/-! ## Tokens -/

/-- A token of a program. Only numbers and strings carry a literal value, and every token carries
the line its last character stands on. -/
structure Token where
  kind : TokenKind
  lexeme : String
  literal : Option Value
  line : Int
deriving DecidableEq

namespace Token

/-- The line that lists a token: its kind, its characters and its literal. -/
def describe (t : Token) : String :=
  let literal := match t.literal with
    | none => "None"
    | some v => v.describe
  t.kind.name ++ " " ++ t.lexeme ++ " " ++ literal

end Token

end Lox
