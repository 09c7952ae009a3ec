import Lox.Tree

/-! # Printed trees

A tree is printed in prefix form, every node between parentheses behind the name of its operator:
`1 + 2 * 3` as `(+ 1 (* 2 3))`. Names and literals are printed as they are. Each node is printed by
its own kind, wherever it stands; printing fails on a literal without a value and on a node that
says only its family. -/

namespace Lox

/-- The words of a printed node between its parentheses. -/
def inParentheses (words : List String) : String := "(" ++ " ".intercalate words ++ ")"

namespace Node

mutual

/-- A node in prefix form. -/
def printed : Node → Except Fault String
  | literal value => yieldText value
  | grouping inner => return inParentheses ["group", ← inner.printed]
  | unary operator right => return inParentheses [operator.lexeme, ← right.printed]
  | binary left operator right | logical left operator right =>
    return inParentheses [operator.lexeme, ← left.printed, ← right.printed]
  | reference name => return name.lexeme
  | assign name value => return inParentheses ["=", name.lexeme, ← value.printed]
  | expression inner => return inParentheses [";", ← inner.printed]
  | print inner => return inParentheses ["print", ← inner.printed]
  | declaration name none => return inParentheses ["var", name.lexeme]
  | declaration name (some initializer) =>
    return inParentheses ["var", name.lexeme, ← initializer.printed]
  | block body => return inParentheses ("block" :: (← printedAll body))
  | branch condition thenBranch none =>
    return inParentheses ["if", ← condition.printed, ← thenBranch.printed]
  | branch condition thenBranch (some elseBranch) =>
    return inParentheses
      ["if", ← condition.printed, ← thenBranch.printed, ← elseBranch.printed]
  | loop condition body => return inParentheses ["while", ← condition.printed, ← body.printed]
  | bareExpression => throw (.unexpectedNode .printingExpression .bareExpression)
  | bareStatement => throw (.unexpectedNode .printingStatement .bareStatement)

/-- Nodes in prefix form, in order. -/
def printedAll : List Node → Except Fault (List String)
  | [] => return []
  | n :: rest => return (← n.printed) :: (← printedAll rest)

end

/-- A node printed as an expression; a statement is refused. -/
def printedExpression (n : Node) : Except Fault String :=
  if n.kind.isStatement then throw (.unexpectedNode .printingExpression n.kind) else n.printed

/-- A node printed as a statement; an expression is refused. -/
def printedStatement (n : Node) : Except Fault String :=
  if n.kind.isStatement then n.printed else throw (.unexpectedNode .printingStatement n.kind)

end Node

/-- An expression in prefix form. -/
def Expr.printed (e : Expr) : Except Fault String := e.toNode.printedExpression

/-- A statement in prefix form. -/
def Stmt.printed (s : Stmt) : Except Fault String := s.toNode.printedStatement

end Lox
