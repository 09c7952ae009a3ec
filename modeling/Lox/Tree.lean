import Lox.Fault

/-! # Program trees

A program is a list of statements over expressions. `Expr` and `Stmt` are the trees that are run.
Operator nodes keep the token of their operator, so that an error can name its line.

A tree may also be assembled by hand, with nodes of any kind in any place: that is a `Node`. Read as
an expression or a statement (`Node.toExpr`, `Node.toStmt`), it keeps every node that stands where
its kind does not belong as a *misplaced* leaf; nothing of it is lost (`Node.toNode_toExpr`,
`Node.toNode_toStmt`). -/

namespace Lox

/-- A node of any kind over nodes of any kind. -/
inductive Node
  | literal (value : Option Value)
  | grouping (inner : Node)
  | unary (operator : Token) (right : Node)
  | binary (left : Node) (operator : Token) (right : Node)
  | logical (left : Node) (operator : Token) (right : Node)
  | reference (name : Token)
  | assign (name : Token) (value : Node)
  | expression (inner : Node)
  | print (inner : Node)
  | declaration (name : Token) (initializer : Option Node)
  | block (body : List Node)
  | branch (condition thenBranch : Node) (elseBranch : Option Node)
  | loop (condition body : Node)
  | bareExpression
  | bareStatement

/-- The kind of a node. -/
def Node.kind : Node → NodeKind
  | literal _ => .literal
  | grouping _ => .grouping
  | unary .. => .unary
  | binary .. => .binary
  | logical .. => .logical
  | reference _ => .reference
  | assign .. => .assign
  | expression _ => .expression
  | print _ => .print
  | declaration .. => .declaration
  | block _ => .block
  | branch .. => .branch
  | loop .. => .loop
  | bareExpression => .bareExpression
  | bareStatement => .bareStatement

/-! ## Expressions -/

/-- An expression. A literal without a value and a misplaced node come only from trees assembled by
hand. -/
inductive Expr
  | literal (value : Option Value)
  | grouping (inner : Expr)
  | unary (operator : Token) (right : Expr)
  | binary (left : Expr) (operator : Token) (right : Expr)
  | logical (left : Expr) (operator : Token) (right : Expr)
  | reference (name : Token)
  | assign (name : Token) (value : Expr)
  | misplaced (node : Node)

namespace Expr

/-- The tree of nodes of an expression. -/
def toNode : Expr → Node
  | literal value => .literal value
  | grouping inner => .grouping inner.toNode
  | unary operator right => .unary operator right.toNode
  | binary left operator right => .binary left.toNode operator right.toNode
  | logical left operator right => .logical left.toNode operator right.toNode
  | reference name => .reference name
  | assign name value => .assign name value.toNode
  | misplaced node => node

/-- The kind of an expression's node. -/
def kind (e : Expr) : NodeKind := e.toNode.kind

/-- The line of the first token that the node of an expression keeps, looking through parentheses;
a literal has none. -/
def line? : Expr → Option Int
  | binary _ operator _ | logical _ operator _ | unary operator _ => some operator.line
  | reference name | assign name _ => some name.line
  | grouping inner => inner.line?
  | literal _ | misplaced _ => none

end Expr

/-! ## Statements -/

/-- A statement. A misplaced node comes only from trees assembled by hand. -/
inductive Stmt
  | expression (inner : Expr)
  | print (inner : Expr)
  | declaration (name : Token) (initializer : Option Expr)
  | block (body : List Stmt)
  | branch (condition : Expr) (thenBranch : Stmt) (elseBranch : Option Stmt)
  | loop (condition : Expr) (body : Stmt)
  | misplaced (node : Node)

mutual

/-- The tree of nodes of a statement. -/
def Stmt.toNode : Stmt → Node
  | .expression inner => .expression inner.toNode
  | .print inner => .print inner.toNode
  | .declaration name none => .declaration name none
  | .declaration name (some initializer) => .declaration name (some initializer.toNode)
  | .block body => .block (Stmt.toNodes body)
  | .branch condition thenBranch none => .branch condition.toNode thenBranch.toNode none
  | .branch condition thenBranch (some elseBranch) =>
    .branch condition.toNode thenBranch.toNode (some elseBranch.toNode)
  | .loop condition body => .loop condition.toNode body.toNode
  | .misplaced node => node

/-- The trees of nodes of statements. -/
def Stmt.toNodes : List Stmt → List Node
  | [] => []
  | s :: rest => s.toNode :: Stmt.toNodes rest

end

/-! ## Reading nodes as expressions and statements -/

namespace Node

/-- A node as an expression; whatever belongs to no expression is kept as it is. -/
def toExpr : Node → Expr
  | literal value => .literal value
  | grouping inner => .grouping inner.toExpr
  | unary operator right => .unary operator right.toExpr
  | binary left operator right => .binary left.toExpr operator right.toExpr
  | logical left operator right => .logical left.toExpr operator right.toExpr
  | reference name => .reference name
  | assign name value => .assign name value.toExpr
  | node => .misplaced node

mutual

/-- A node as a statement; whatever belongs to no statement is kept as it is. -/
def toStmt : Node → Stmt
  | expression inner => .expression inner.toExpr
  | print inner => .print inner.toExpr
  | declaration name none => .declaration name none
  | declaration name (some initializer) => .declaration name (some initializer.toExpr)
  | block body => .block (toStmts body)
  | branch condition thenBranch none => .branch condition.toExpr thenBranch.toStmt none
  | branch condition thenBranch (some elseBranch) =>
    .branch condition.toExpr thenBranch.toStmt (some elseBranch.toStmt)
  | loop condition body => .loop condition.toExpr body.toStmt
  | node => .misplaced node

/-- Nodes as statements. -/
def toStmts : List Node → List Stmt
  | [] => []
  | n :: rest => n.toStmt :: toStmts rest

end

/-- Reading a node as an expression loses nothing of it. -/
@[simp] theorem toNode_toExpr (n : Node) : n.toExpr.toNode = n := by
  fun_induction toExpr n <;> simp_all [Expr.toNode]

mutual

/-- Reading a node as a statement loses nothing of it. -/
@[simp] theorem toNode_toStmt : (n : Node) → n.toStmt.toNode = n
  | expression _ | print _ | declaration _ none | declaration _ (some _) => by
    simp [toStmt, Stmt.toNode]
  | block body => by simp [toStmt, Stmt.toNode, toNodes_toStmts body]
  | branch _ thenBranch none => by simp [toStmt, Stmt.toNode, toNode_toStmt thenBranch]
  | branch _ thenBranch (some elseBranch) => by
    simp [toStmt, Stmt.toNode, toNode_toStmt thenBranch, toNode_toStmt elseBranch]
  | loop _ body => by simp [toStmt, Stmt.toNode, toNode_toStmt body]
  | literal _ | grouping _ | unary .. | binary .. | logical .. | reference _ | assign ..
  | bareExpression | bareStatement => rfl

/-- Reading nodes as statements loses nothing of them. -/
@[simp] theorem toNodes_toStmts : (ns : List Node) → Stmt.toNodes (toStmts ns) = ns
  | [] => rfl
  | n :: rest => by simp [toStmts, Stmt.toNodes, toNode_toStmt n, toNodes_toStmts rest]

end

end Node

end Lox
