import Lox.Grammar.Expression

/-! # The grammar of statements

    declaration → varDecl | statement
    varDecl     → "var" IDENTIFIER ( "=" expression )? ";"
    statement   → forStmt | ifStmt | printStmt | whileStmt | block | exprStmt
    forStmt     → "for" "(" ( varDecl | exprStmt | ";" ) expression? ";" expression? ")" statement
    ifStmt      → "if" "(" expression ")" statement ( "else" statement )?
    printStmt   → "print" expression ";"
    whileStmt   → "while" "(" expression ")" statement
    block       → "{" declaration* "}"
    exprStmt    → expression ";"

A `for` loop has no node of its own: it is a block with the initializer and a `while` loop
(`Stmt.forLoop`). As for expressions, every rule takes the rules for what is inside it; the rules
for statements that open with a word or a brace start behind it. -/

namespace Lox

/-- The statement that a `for` loop stands for: a `while` loop over the body and the increment, in a
block behind the initializer. A loop without a condition runs on the value `true`, and a block that
would hold one statement only is left out. -/
def Stmt.forLoop (initializer : Option Stmt) (condition increment : Option Expr) (body : Stmt) :
    Stmt :=
  let body := match increment with
    | none => body
    | some e => .block [body, .expression e]
  let loop := Stmt.loop (condition.getD (.literal (some (.boolean true)))) body
  match initializer with
  | none => loop
  | some s => .block [s, loop]

namespace Grammar

open Rule

/-! ## Rules without statements inside -/

/-- A variable declaration behind `var`. -/
def variableDeclaration (expr : Rule Expr) : Rule Stmt := do
  let name ← expect .identifier .missingVariableName
  let initializer ← match ← accept (· = .equal) with
    | none => pure none
    | some _ => some <$> expr
  let _ ← expect .semicolon .unendedDeclaration
  return .declaration name initializer

/-- An expression as a statement. -/
def expressionStatement (expr : Rule Expr) : Rule Stmt := do
  let e ← expr
  let _ ← expect .semicolon .unendedExpression
  return .expression e

/-- A print statement behind `print`. -/
def printStatement (expr : Rule Expr) : Rule Stmt := do
  let e ← expr
  let _ ← expect .semicolon .unendedPrint
  return .print e

/-! ## Rules with statements inside -/

/-- A conditional behind `if`. An `else` belongs to the nearest conditional that can take it. -/
def ifStatement (expr : Rule Expr) (body : Rule Stmt) : Rule Stmt := do
  let _ ← expect .leftParen .unopenedIfCondition
  let condition ← expr
  let _ ← expect .rightParen .unclosedIfCondition
  let thenBranch ← body
  match ← accept (· = .keyword .elseWord) with
  | none => return .branch condition thenBranch none
  | some _ => return .branch condition thenBranch (some (← body))

/-- A loop behind `while`. -/
def whileStatement (expr : Rule Expr) (body : Rule Stmt) : Rule Stmt := do
  let _ ← expect .leftParen .unopenedWhileCondition
  let condition ← expr
  let _ ← expect .rightParen .unclosedWhileCondition
  return .loop condition (← body)

/-- The first clause of a `for` loop, with the semicolon that ends it. -/
def forInitializer (expr : Rule Expr) : Rule (Option Stmt) := do
  match (← peek).kind with
  | .semicolon => skip; return none
  | .keyword .varWord => skip; some <$> variableDeclaration expr
  | _ => some <$> expressionStatement expr

/-- An expression that may be left out in front of a token of the given kind. -/
def optionalBefore (kind : TokenKind) (expr : Rule Expr) : Rule (Option Expr) := do
  if ← check (· = kind) then return none else some <$> expr

/-- A loop behind `for`. -/
def forStatement (expr : Rule Expr) (body : Rule Stmt) : Rule Stmt := do
  let _ ← expect .leftParen .unopenedForClauses
  let initializer ← forInitializer expr
  let condition ← optionalBefore .semicolon expr
  let _ ← expect .semicolon .unendedLoopCondition
  let increment ← optionalBefore .rightParen expr
  let _ ← expect .rightParen .unclosedForClauses
  return .forLoop initializer condition increment (← body)

/-- A declaration or a statement. -/
def declarationOr (expr : Rule Expr) (other : Rule Stmt) : Rule Stmt := do
  match ← accept (· = .keyword .varWord) with
  | some _ => variableDeclaration expr
  | none => other

/-- The declarations up to a closing brace or the end, added to the ones found before, last
first. -/
def declarationsOnto (item : Rule Stmt) : Nat → List Stmt → Rule (List Stmt)
  | 0, _ => throw .endOfTokens
  | bound + 1, found => do
    if (← check (· = .rightBrace)) || (← isAtEnd) then return found.reverse
    else
      let s ← item
      declarationsOnto item bound (s :: found)

/-- The inside of a block and its closing brace, behind the opening one. -/
def block (item : Rule Stmt) (bound : Nat) : Rule (List Stmt) := do
  let body ← declarationsOnto item bound []
  let _ ← expect .rightBrace .unclosedBlock
  return body

/-- A statement of any form, over the rules for the expressions and statements inside it. -/
def statementOver (expr : Rule Expr) (inner : Rule Stmt) (bound : Nat) : Rule Stmt := do
  match (← peek).kind with
  | .keyword .forWord => skip; forStatement expr inner
  | .keyword .ifWord => skip; ifStatement expr inner
  | .keyword .printWord => skip; printStatement expr
  | .keyword .whileWord => skip; whileStatement expr inner
  | .leftBrace => skip; .block <$> block (declarationOr expr inner) bound
  | _ => expressionStatement expr

/-- **A statement**, in front of at most `bound` tokens. The statements inside it stand behind a
token of their own, so for them one token less is left. -/
def statement : (bound : Nat) → Rule Stmt
  | 0 => throw .endOfTokens
  | bound + 1 => statementOver (expression (bound + 1)) (statement bound) (bound + 1)

/-- **A declaration or a statement**, in front of at most `bound` tokens. -/
def declaration (bound : Nat) : Rule Stmt := declarationOr (expression bound) (statement bound)

/-- The declarations up to the end token, added to the ones found before, last first. -/
def programOnto : Nat → List Stmt → Rule (List Stmt)
  | 0, _ => throw .endOfTokens
  | bound + 1, found => do
    if ← isAtEnd then return found.reverse
    else
      let s ← declaration (bound + 1)
      programOnto bound (s :: found)

/-- **A program**, in front of at most `bound` tokens. -/
def program (bound : Nat) : Rule (List Stmt) := programOnto bound []

/-- **A single expression** that takes all tokens up to the end token. -/
def wholeExpression (bound : Nat) : Rule Expr := do
  let e ← expression bound
  if ← isAtEnd then return e else reject (← peek) .missingExpression

end Grammar

end Lox
