import Lox.Token

/-! # Reports

Whatever is wrong with a program is reported as one message. An error is a cause together with the
place it was noticed at; this file has the causes, their wording, and the form of a message:

* **`LexicalError`** — characters that are no token;
* **`SyntaxError`** — tokens that are no program, with the first token that cannot go on;
* **`RuntimeError`** — an operation that its operands do not allow, with the token that asked for
  it. -/

namespace Lox

/-- The form of a message about the text of a program. -/
def renderReport (line : Int) (location message : String) : String :=
  "[line " ++ toString line ++ "] Error" ++ location ++ ": " ++ message

/-! ## Lexical errors -/

/-- Why characters are no token. -/
inductive LexicalErrorKind
  | unexpectedCharacter
  | unterminatedString
deriving DecidableEq, Repr

/-- The wording of a cause. -/
def LexicalErrorKind.message : LexicalErrorKind → String
  | unexpectedCharacter => "Unexpected character."
  | unterminatedString => "Unterminated string."

/-- Characters that are no token, and the line they end on. -/
structure LexicalError where
  line : Int
  kind : LexicalErrorKind
deriving DecidableEq, Repr

/-- The message of a lexical error. -/
def LexicalError.render (e : LexicalError) : String := renderReport e.line "" e.kind.message

/-! ## Syntax errors -/

/-- What a rule of the grammar missed, or could not accept. -/
inductive SyntaxErrorKind
  | missingExpression
  | unclosedGroup
  | unendedPrint
  | unendedExpression
  | missingVariableName
  | unendedDeclaration
  | invalidAssignmentTarget
  | unclosedBlock
  | unopenedIfCondition
  | unclosedIfCondition
  | unopenedWhileCondition
  | unclosedWhileCondition
  | unopenedForClauses
  | unendedLoopCondition
  | unclosedForClauses
deriving DecidableEq, Repr

/-- The wording of a cause. -/
def SyntaxErrorKind.message : SyntaxErrorKind → String
  | missingExpression => "Expect expression."
  | unclosedGroup => "Expect ')' after expression."
  | unendedPrint => "Expect ';' after value."
  | unendedExpression => "Expect ';' after expression."
  | missingVariableName => "Expect variable name."
  | unendedDeclaration => "Expect ';' after variable declaration."
  | invalidAssignmentTarget => "Invalid assignment target."
  | unclosedBlock => "Expect '\x7d' after block."
  | unopenedIfCondition => "Expect '(' after 'if'."
  | unclosedIfCondition => "Expect ')' after if condition."
  | unopenedWhileCondition => "Expect '(' after 'while'."
  | unclosedWhileCondition => "Expect ')' after while condition."
  | unopenedForClauses => "Expect '(' after 'for'."
  | unendedLoopCondition => "Expect ';' after loop condition."
  | unclosedForClauses => "Expect ')' after for clauses."

/-- The token at which the grammar cannot go on, and why. -/
structure SyntaxError where
  token : Token
  kind : SyntaxErrorKind
deriving DecidableEq

namespace SyntaxError

/-- The message of a syntax error quotes the token, or says that the program has ended. -/
def render (e : SyntaxError) : String :=
  let location :=
    if e.token.kind = .endOfInput then " at end" else " at '" ++ e.token.lexeme ++ "'"
  renderReport e.token.line location e.kind.message

/-- The error in one line, with its place behind it. -/
def summary (e : SyntaxError) : String :=
  "ParseError: " ++ e.kind.message ++ " (line " ++ toString e.token.line ++ ")"

end SyntaxError

/-! ## Runtime errors -/

/-- Why an operation cannot be carried out. -/
inductive RuntimeErrorKind
  | operandNotNumber
  | operandsNotNumbers
  | operandsNotAddable
  | undefinedVariable
deriving DecidableEq, Repr

namespace RuntimeErrorKind

/-- The name of a cause in trace entries. -/
def label : RuntimeErrorKind → String
  | operandNotNumber => "OPERAND_MUST_BE_NUMBER"
  | operandsNotNumbers => "OPERANDS_MUST_BE_NUMBERS"
  | operandsNotAddable => "OPERANDS_MUST_BE_NUMBERS_OR_STRINGS"
  | undefinedVariable => "UNDEFINED_VARIABLE"

/-- The wording of a cause, for the token with the given characters. -/
def message (lexeme : String) : RuntimeErrorKind → String
  | operandNotNumber => "Operand must be a number."
  | operandsNotNumbers => "Operands must be numbers."
  | operandsNotAddable => "Operands must be two numbers or two strings."
  | undefinedVariable => "Undefined variable '" ++ lexeme ++ "'."

end RuntimeErrorKind

/-- The operator or name whose evaluation failed, and why. -/
structure RuntimeError where
  token : Token
  kind : RuntimeErrorKind
deriving DecidableEq

namespace RuntimeError

/-- The wording of an error. -/
def message (e : RuntimeError) : String := e.kind.message e.token.lexeme

/-- The message of a runtime error: its wording, and the line below it. -/
def render (e : RuntimeError) : String :=
  e.message ++ "\n[line " ++ toString e.token.line ++ "]"

/-- The error in one line, with its place behind it. -/
def summary (e : RuntimeError) : String :=
  "RuntimeError: " ++ e.message ++ " (line " ++ toString e.token.line ++ ")"

end RuntimeError

end Lox
