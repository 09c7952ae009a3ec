import Lox.Token

/-! # Faults

A fault is a way for a call to go wrong that is no error of the program being read or run: it takes
a list of tokens without an end, a window moved by hand past its characters, or a tree assembled by
hand with a node in the wrong place. -/

namespace Lox

/-- The kinds of nodes of a program tree. `bareExpression` and `bareStatement` are nodes that say
only which family they belong to. -/
inductive NodeKind
  | literal | grouping | unary | binary | logical | reference | assign
  | expression | print | declaration | block | branch | loop
  | bareExpression | bareStatement
deriving DecidableEq, Repr

namespace NodeKind

/-- The name of a kind of node. -/
def name : NodeKind → String
  | literal => "Literal" | grouping => "Grouping" | unary => "Unary" | binary => "Binary"
  | logical => "Logical" | reference => "Variable" | assign => "Assign"
  | expression => "Expression" | print => "Print" | declaration => "Var" | block => "Block"
  | branch => "If" | loop => "While"
  | bareExpression => "Expr" | bareStatement => "Stmt"

/-- Whether a node of this kind is a statement; the others are expressions. -/
def isStatement : NodeKind → Bool
  | expression | print | declaration | block | branch | loop | bareStatement => true
  | literal | grouping | unary | binary | logical | reference | assign | bareExpression => false

end NodeKind

/-- What was being done with a node that it does not allow. -/
inductive NodeUse
  | evaluating | executing | printingExpression | printingStatement
deriving DecidableEq, Repr

/-- The ways a call can go wrong that no program text leads to. -/
inductive Fault
  /-- A character was asked for behind the last one. -/
  | endOfSource
  /-- A token was asked for behind the last one. -/
  | endOfTokens
  /-- A number was asked for, and the characters are no numeral. -/
  | malformedNumeral (text : String)
  /-- A missing value was to be shown. -/
  | missingValue
  /-- A node stands where its kind does not belong. -/
  | unexpectedNode (use : NodeUse) (kind : NodeKind)
  /-- A token that is no unary operator stands at the place of one. -/
  | unknownUnaryOperator (kind : TokenKind)
  /-- A token that is no binary operator stands at the place of one. -/
  | unknownBinaryOperator (kind : TokenKind)
  /-- A quotient was asked for whose divisor is zero. -/
  | zeroDivisor
deriving DecidableEq, Repr

/-- The text of what an expression yields; a missing value has none. -/
def yieldText : Option Value → Except Fault String
  | none => .error .missingValue
  | some v => .ok v.text

end Lox
