import Lox.Grammar.Statement

/-! # Surface programs

The derivation trees of the grammar, with every token in its place. A leaf is a **`Terminal`**, a
token of one of the kinds that the grammar has there, so no tree stands for tokens that the grammar
does not derive.

* **`Expression`** — the trees of expressions, one type for each level of binding;
* **`Statement`**, **`Declaration`** — the trees of statements, where `for` is a statement of its
  own;
* **`Program`** — the trees of programs in which every `else` belongs to the nearest conditional
  that can take it;
* **`tokens`** — the tokens of a tree, from left to right;
* **`expr`**, **`desugar`** — the program tree that a derivation stands for. -/

namespace Lox.Surface

/-! ## Terminals -/

/-- A token of one of the given kinds. -/
@[ext] structure Terminal (kinds : List TokenKind) where
  token : Token
  kind_mem : token.kind ∈ kinds

/-- A token of one kind. -/
abbrev Mark (kind : TokenKind) := Terminal [kind]

namespace Terminal

/-- A mark is of its one kind. -/
@[simp] theorem kind_token {kind : TokenKind} (m : Mark kind) : m.token.kind = kind := by
  simpa using m.kind_mem

/-- A token of a kind as its mark. -/
def ofKind {t : Token} {kind : TokenKind} (h : t.kind = kind) : Mark kind := ⟨t, by simp [h]⟩

@[simp] theorem token_ofKind {t : Token} {kind : TokenKind} (h : t.kind = kind) :
    (ofKind h).token = t := rfl

end Terminal

/-! ## Levels of binary operators -/

/-- The levels at which operands are joined, from the loosest to the tightest. -/
inductive Level
  | logicOr | logicAnd | equality | comparison | term | factor
deriving DecidableEq, Repr

namespace Level

/-- The operators of a level. -/
def operators : Level → List TokenKind
  | logicOr => [.keyword .orWord]
  | logicAnd => [.keyword .andWord]
  | equality => [.bangEqual, .equalEqual]
  | comparison => [.greater, .greaterEqual, .less, .lessEqual]
  | term => [.minus, .plus]
  | factor => [.slash, .star]

/-- The node of a level over its two operands. -/
def combine : Level → Expr → Token → Expr → Expr
  | logicOr | logicAnd => .logical
  | equality | comparison | term | factor => .binary

end Level

/-! ## Expressions -/

/-- The nonterminals of the grammar of expressions; an expression is an `assignment`. -/
inductive ExprForm
  | assignment
  | joined (level : Level)
  | unary
  | primary
deriving DecidableEq, Repr

/-- The nonterminal of the operands of a level. -/
def Level.operand : Level → ExprForm
  | logicOr => .joined .logicAnd
  | logicAnd => .joined .equality
  | equality => .joined .comparison
  | comparison => .joined .term
  | term => .joined .factor
  | factor => .unary

/-- The kinds of the signs in front of an operand. -/
def signKinds : List TokenKind := [.bang, .minus]

/-- The kinds of tokens that are a literal each. -/
def literalKinds : List TokenKind :=
  [.number, .string, .keyword .trueWord, .keyword .falseWord, .keyword .nilWord]

/-- **The derivations of a nonterminal of expressions.** A chain of operands is kept from the left:
it is an operand, or a shorter chain with one more operator and operand behind it. -/
inductive ExprTree : ExprForm → Type
  | assign (name : Mark .identifier) (equals : Mark .equal) (value : ExprTree .assignment) :
      ExprTree .assignment
  | plain (e : ExprTree (.joined .logicOr)) : ExprTree .assignment
  | operand {level : Level} (e : ExprTree level.operand) : ExprTree (.joined level)
  | join {level : Level} (left : ExprTree (.joined level)) (operator : Terminal level.operators)
      (right : ExprTree level.operand) : ExprTree (.joined level)
  | signed (sign : Terminal signKinds) (e : ExprTree .unary) : ExprTree .unary
  | unsigned (e : ExprTree .primary) : ExprTree .unary
  | literal (t : Terminal literalKinds) : ExprTree .primary
  | reference (t : Mark .identifier) : ExprTree .primary
  | group (opening : Mark .leftParen) (inner : ExprTree .assignment) (closing : Mark .rightParen) :
      ExprTree .primary

/-- The derivations of an expression. -/
abbrev Expression := ExprTree .assignment

/-- What the token of a literal yields: the three words stand for themselves, a number or a string
for the literal that its token carries. -/
def literalValue (t : Token) : Option Value :=
  match t.kind with
  | .keyword .trueWord => some (.boolean true)
  | .keyword .falseWord => some (.boolean false)
  | .keyword .nilWord => some .nil
  | _ => t.literal

namespace ExprTree

variable {form : ExprForm}

/-- The tokens of an expression. -/
def tokens {form : ExprForm} : ExprTree form → List Token
  | assign name equals value => name.token :: equals.token :: value.tokens
  | plain e => e.tokens
  | operand e => e.tokens
  | join left operator right => left.tokens ++ operator.token :: right.tokens
  | signed sign e => sign.token :: e.tokens
  | unsigned e => e.tokens
  | literal t => [t.token]
  | reference t => [t.token]
  | group opening inner closing => opening.token :: (inner.tokens ++ [closing.token])

/-- The program tree of an expression: operands of one level lean to the left, assignments to the
right. -/
def expr {form : ExprForm} : ExprTree form → Expr
  | assign name _ value => .assign name.token value.expr
  | plain e => e.expr
  | operand e => e.expr
  | @join level left operator right => level.combine left.expr operator.token right.expr
  | signed sign e => .unary sign.token e.expr
  | unsigned e => e.expr
  | literal t => .literal (literalValue t.token)
  | reference t => .reference t.token
  | group _ inner _ => .grouping inner.expr

end ExprTree

/-! ## Statements -/

/-- A variable declaration. -/
structure VariableDeclaration where
  word : Mark (.keyword .varWord)
  name : Mark .identifier
  initializer : Option (Mark .equal × Expression)
  closing : Mark .semicolon

/-- An expression as a statement. -/
structure ExpressionStatement where
  inner : Expression
  closing : Mark .semicolon

/-- The first clause of a `for` loop, with the semicolon that ends it. -/
inductive ForInitializer
  | declaration (d : VariableDeclaration)
  | expression (s : ExpressionStatement)
  | absent (closing : Mark .semicolon)

mutual

/-- The derivations of a statement. -/
inductive Statement
  | forLoop (word : Mark (.keyword .forWord)) (opening : Mark .leftParen)
      (initializer : ForInitializer) (condition : Option Expression) (separator : Mark .semicolon)
      (increment : Option Expression) (closing : Mark .rightParen) (body : Statement)
  | branch (word : Mark (.keyword .ifWord)) (opening : Mark .leftParen) (condition : Expression)
      (closing : Mark .rightParen) (thenBranch : Statement)
  | branchElse (word : Mark (.keyword .ifWord)) (opening : Mark .leftParen)
      (condition : Expression) (closing : Mark .rightParen) (thenBranch : Statement)
      (elseWord : Mark (.keyword .elseWord)) (elseBranch : Statement)
  | print (word : Mark (.keyword .printWord)) (inner : Expression) (closing : Mark .semicolon)
  | whileLoop (word : Mark (.keyword .whileWord)) (opening : Mark .leftParen)
      (condition : Expression) (closing : Mark .rightParen) (body : Statement)
  | block (opening : Mark .leftBrace) (body : List Declaration) (closing : Mark .rightBrace)
  | expression (s : ExpressionStatement)

/-- The derivations of a declaration, which may be any statement. -/
inductive Declaration
  | binding (d : VariableDeclaration)
  | statement (s : Statement)

end

/-! ## Tokens of statements -/

/-- The tokens of a variable declaration. -/
def VariableDeclaration.tokens (d : VariableDeclaration) : List Token :=
  d.word.token :: d.name.token ::
    ((match d.initializer with
      | none => []
      | some (equals, e) => equals.token :: e.tokens) ++ [d.closing.token])

/-- The tokens of an expression statement. -/
def ExpressionStatement.tokens (s : ExpressionStatement) : List Token :=
  s.inner.tokens ++ [s.closing.token]

/-- The tokens of the first clause of a `for` loop. -/
def ForInitializer.tokens : ForInitializer → List Token
  | declaration d => d.tokens
  | expression s => s.tokens
  | absent closing => [closing.token]

/-- The tokens of an expression that may be left out. -/
def optionalTokens : Option Expression → List Token
  | none => []
  | some e => e.tokens

mutual

/-- The tokens of a statement. -/
def Statement.tokens : Statement → List Token
  | .forLoop word opening initializer condition separator increment closing body =>
    word.token :: opening.token :: (initializer.tokens ++ (optionalTokens condition ++
      separator.token :: (optionalTokens increment ++ closing.token :: body.tokens)))
  | .branch word opening condition closing thenBranch =>
    word.token :: opening.token :: (condition.tokens ++ closing.token :: thenBranch.tokens)
  | .branchElse word opening condition closing thenBranch elseWord elseBranch =>
    word.token :: opening.token :: (condition.tokens ++ closing.token ::
      (thenBranch.tokens ++ elseWord.token :: elseBranch.tokens))
  | .print word inner closing => word.token :: (inner.tokens ++ [closing.token])
  | .whileLoop word opening condition closing body =>
    word.token :: opening.token :: (condition.tokens ++ closing.token :: body.tokens)
  | .block opening body closing =>
    opening.token :: (Declaration.allTokens body ++ [closing.token])
  | .expression s => s.tokens

/-- The tokens of a declaration. -/
def Declaration.tokens : Declaration → List Token
  | .binding d => d.tokens
  | .statement s => s.tokens

/-- The tokens of declarations one after the other. -/
def Declaration.allTokens : List Declaration → List Token
  | [] => []
  | d :: rest => d.tokens ++ Declaration.allTokens rest

end

/-! ## Program trees of statements -/

/-- The program tree of a variable declaration. -/
def VariableDeclaration.desugar (d : VariableDeclaration) : Stmt :=
  .declaration d.name.token (d.initializer.map fun p => p.2.expr)

/-- The program tree of an expression statement. -/
def ExpressionStatement.desugar (s : ExpressionStatement) : Stmt := .expression s.inner.expr

/-- The program tree of the first clause of a `for` loop. -/
def ForInitializer.desugar : ForInitializer → Option Stmt
  | declaration d => some d.desugar
  | expression s => some s.desugar
  | absent _ => none

/-- The body of a loop with an increment is a block of the two. -/
def withIncrement : Option Expression → Stmt → Stmt
  | none, body => body
  | some e, body => .block [body, .expression e.expr]

/-- The condition of a loop that leaves it out is the value `true`. -/
def conditionOrTrue : Option Expression → Expr
  | none => .literal (some (.boolean true))
  | some e => e.expr

/-- A loop with an initializer is a block of the two. -/
def withInitializer : Option Stmt → Stmt → Stmt
  | none, loop => loop
  | some s, loop => .block [s, loop]

mutual

/-- The program tree of a statement, where a `for` loop is written with a `while` loop. -/
def Statement.desugar : Statement → Stmt
  | .forLoop _ _ initializer condition _ increment _ body =>
    withInitializer initializer.desugar
      (.loop (conditionOrTrue condition) (withIncrement increment body.desugar))
  | .branch _ _ condition _ thenBranch => .branch condition.expr thenBranch.desugar none
  | .branchElse _ _ condition _ thenBranch _ elseBranch =>
    .branch condition.expr thenBranch.desugar (some elseBranch.desugar)
  | .print _ inner _ => .print inner.expr
  | .whileLoop _ _ condition _ body => .loop condition.expr body.desugar
  | .block _ body _ => .block (Declaration.desugarAll body)
  | .expression s => s.desugar

/-- The program tree of a declaration. -/
def Declaration.desugar : Declaration → Stmt
  | .binding d => d.desugar
  | .statement s => s.desugar

/-- The program trees of declarations. -/
def Declaration.desugarAll : List Declaration → List Stmt
  | [] => []
  | d :: rest => d.desugar :: Declaration.desugarAll rest

end

/-! ## The nearest conditional -/

/-- Whether a statement ends in a conditional without `else`, so that an `else` behind it would
belong to that conditional. -/
def Statement.endsOpen : Statement → Bool
  | .branch .. => true
  | .branchElse _ _ _ _ _ _ elseBranch => elseBranch.endsOpen
  | .forLoop _ _ _ _ _ _ _ body => body.endsOpen
  | .whileLoop _ _ _ _ body => body.endsOpen
  | .print .. | .block .. | .expression _ => false

mutual

/-- No conditional with an `else` has a first branch that could take it. -/
def Statement.Proper : Statement → Prop
  | .forLoop _ _ _ _ _ _ _ body => body.Proper
  | .branch _ _ _ _ thenBranch => thenBranch.Proper
  | .branchElse _ _ _ _ thenBranch _ elseBranch =>
    thenBranch.Proper ∧ thenBranch.endsOpen = false ∧ elseBranch.Proper
  | .whileLoop _ _ _ _ body => body.Proper
  | .block _ body _ => Declaration.AllProper body
  | .print .. | .expression _ => True

/-- Every `else` of a declaration belongs to the nearest conditional that can take it. -/
def Declaration.Proper : Declaration → Prop
  | .binding _ => True
  | .statement s => s.Proper

/-- Every `else` of the declarations belongs to the nearest conditional that can take it. -/
def Declaration.AllProper : List Declaration → Prop
  | [] => True
  | d :: rest => d.Proper ∧ Declaration.AllProper rest

end

/-! ## Declarations one after the other -/

namespace Declaration

/-- The tokens of declarations one after the other. -/
theorem allTokens_append (ds ds' : List Declaration) :
    allTokens (ds ++ ds') = allTokens ds ++ allTokens ds' := by
  induction ds with
  | nil => rfl
  | cons d rest ih => rw [List.cons_append, allTokens, allTokens, ih, List.append_assoc]

/-- The program trees of declarations one after the other. -/
theorem desugarAll_append (ds ds' : List Declaration) :
    desugarAll (ds ++ ds') = desugarAll ds ++ desugarAll ds' := by
  induction ds with
  | nil => rfl
  | cons d rest ih => rw [List.cons_append, desugarAll, desugarAll, ih, List.cons_append]

/-- Declarations one after the other are proper if all of them are. -/
theorem allProper_append_iff (ds ds' : List Declaration) :
    AllProper (ds ++ ds') ↔ AllProper ds ∧ AllProper ds' := by
  induction ds with
  | nil => simp [AllProper]
  | cons d rest ih => rw [List.cons_append, AllProper, AllProper, ih, and_assoc]

end Declaration

/-! ## Programs -/

/-- **A surface program**: declarations in which every `else` belongs to the nearest conditional
that can take it. -/
@[ext] structure Program where
  declarations : List Declaration
  proper : Declaration.AllProper declarations

namespace Program

/-- The tokens of a program, in front of the end token. -/
def tokens (p : Program) : List Token := Declaration.allTokens p.declarations

/-- The statements that a program stands for. -/
def desugar (p : Program) : List Stmt := Declaration.desugarAll p.declarations

end Program

end Lox.Surface
