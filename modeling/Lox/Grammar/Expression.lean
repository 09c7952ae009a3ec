import Lox.Grammar.Rule

/-! # The grammar of expressions

From the loosest to the tightest binding:

    expression  → assignment
    assignment  → IDENTIFIER "=" assignment | logicOr
    logicOr     → logicAnd ( "or" logicAnd )*
    logicAnd    → equality ( "and" equality )*
    equality    → comparison ( ( "!=" | "==" ) comparison )*
    comparison  → term ( ( ">" | ">=" | "<" | "<=" ) term )*
    term        → factor ( ( "-" | "+" ) factor )*
    factor      → unary ( ( "/" | "*" ) unary )*
    unary       → ( "!" | "-" ) unary | primary
    primary     → NUMBER | STRING | "true" | "false" | "nil" | "(" expression ")" | IDENTIFIER

Operators of one level lean to the left, assignments to the right. Every rule takes the rule for the
expressions inside it. Rules that repeat take a bound on the tokens that are left: each round passes
a token, so a bound that is used up means that no token is left at all. -/

namespace Lox.Grammar

open Rule

/-! ## Operators of the levels -/

/-- The operators in front of an operand. -/
def isSign : TokenKind → Bool
  | .bang | .minus => true
  | _ => false

/-- The operators that multiply or divide. -/
def isFactorOperator : TokenKind → Bool
  | .slash | .star => true
  | _ => false

/-- The operators that add or subtract. -/
def isTermOperator : TokenKind → Bool
  | .minus | .plus => true
  | _ => false

/-- The operators that compare. -/
def isComparisonOperator : TokenKind → Bool
  | .greater | .greaterEqual | .less | .lessEqual => true
  | _ => false

/-- The operators that test for equality. -/
def isEqualityOperator : TokenKind → Bool
  | .bangEqual | .equalEqual => true
  | _ => false

/-! ## Rules -/

/-- A literal, a name, or an expression in parentheses. -/
def primary (inner : Rule Expr) : Rule Expr := do
  let t ← peek
  match t.kind with
  | .keyword .falseWord => skip; return .literal (some (.boolean false))
  | .keyword .trueWord => skip; return .literal (some (.boolean true))
  | .keyword .nilWord => skip; return .literal (some .nil)
  | .number | .string => skip; return .literal t.literal
  | .identifier => skip; return .reference t
  | .leftParen =>
    skip
    let e ← inner
    let _ ← expect .rightParen .unclosedGroup
    return .grouping e
  | _ => reject t .missingExpression

/-- The signs in front of an operand. -/
def signs : Rule (List Token) := fun ts =>
  .ok (ts.takeWhile fun t => isSign t.kind) (ts.dropWhile fun t => isSign t.kind)

/-- An operand behind any number of signs; the last sign is the innermost. -/
def unary (inner : Rule Expr) : Rule Expr := do
  let operators ← signs
  let operand ← primary inner
  return operators.foldr Expr.unary operand

/-- Goes on behind a first operand: as long as an operator of the level follows, what was read so
far becomes its left operand. -/
def chainFrom (build : Expr → Token → Expr → Expr) (isOperator : TokenKind → Bool)
    (operand : Rule Expr) : Nat → Expr → Rule Expr
  | 0, _ => throw .endOfTokens
  | bound + 1, left => do
    match ← accept isOperator with
    | none => return left
    | some operator =>
      let right ← operand
      chainFrom build isOperator operand bound (build left operator right)

/-- Operands joined by the operators of a level. -/
def chain (build : Expr → Token → Expr → Expr) (isOperator : TokenKind → Bool)
    (operand : Rule Expr) (bound : Nat) : Rule Expr := do
  let first ← operand
  chainFrom build isOperator operand bound first

/-- Products and quotients. -/
def factor (inner : Rule Expr) (bound : Nat) : Rule Expr :=
  chain .binary isFactorOperator (unary inner) bound

/-- Sums and differences. -/
def term (inner : Rule Expr) (bound : Nat) : Rule Expr :=
  chain .binary isTermOperator (factor inner bound) bound

/-- Comparisons. -/
def comparison (inner : Rule Expr) (bound : Nat) : Rule Expr :=
  chain .binary isComparisonOperator (term inner bound) bound

/-- Tests for equality. -/
def equality (inner : Rule Expr) (bound : Nat) : Rule Expr :=
  chain .binary isEqualityOperator (comparison inner bound) bound

/-- Operands joined by `and`. -/
def logicAnd (inner : Rule Expr) (bound : Nat) : Rule Expr :=
  chain .logical (· = .keyword .andWord) (equality inner bound) bound

/-- Operands joined by `or`. -/
def logicOr (inner : Rule Expr) (bound : Nat) : Rule Expr :=
  chain .logical (· = .keyword .orWord) (logicAnd inner bound) bound

/-- An assignment, whose target must be a name, or an expression without one. -/
def assignment (inner : Rule Expr) (bound : Nat) : Rule Expr := do
  let target ← logicOr inner bound
  match ← accept (· = .equal) with
  | none => return target
  | some equals =>
    match target with
    | .reference name => return .assign name (← inner)
    | _ => reject equals .invalidAssignmentTarget

/-- **An expression**, in front of at most `bound` tokens. The expressions inside it stand behind a
token of their own, so for them one token less is left. -/
def expression : (bound : Nat) → Rule Expr
  | 0 => throw .endOfTokens
  | bound + 1 => assignment (expression bound) (bound + 1)

end Lox.Grammar
