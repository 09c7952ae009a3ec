import Lox.Proofs.Grammar.Expressions
import Lox.Proofs.Lines

/-! # Places of expressions

A derivation in which one place is left open for a derivation of an expression. The places are those
where the grammar has an expression or one of the parts that it is joined from; the name that an
assignment assigns to is no such place. Whatever fills a place, the tokens around it stay, and so
does the rest of the program tree.

* **`ExprContext`**, **`StatementContext`**, **`ProgramContext`** — the places inside expressions,
  statements and programs;
* **`fill`** — the derivation with its place filled;
* **`front`**, **`back`** — the tokens around the place; **`plug`** — the program tree around it;
* **`ProgramContext.tokens_fill`**, **`ProgramContext.desugar_fill`** — the tokens and the program
  tree of what was filled;
* **`ProgramContext.allProper_fill_iff`** — no place has to do with which conditional an `else`
  belongs to;
* **`ProgramContext.allMapped_plug`** — what is put for two expressions wherever they stand is put
  for the programs around them;
* **`ExprTree.parenthesized`** — a derivation between parentheses, which fits its own place. -/

namespace Lox.Surface

/-! ## Places -/

/-- **An expression with an open place** for a derivation of the nonterminal `place`. -/
inductive ExprContext (place : ExprForm) : ExprForm → Type
  | here : ExprContext place place
  | assign (name : Mark .identifier) (equals : Mark .equal)
      (value : ExprContext place .assignment) : ExprContext place .assignment
  | plain (e : ExprContext place (.joined .logicOr)) : ExprContext place .assignment
  | operand {level : Level} (e : ExprContext place level.operand) :
      ExprContext place (.joined level)
  | joinLeft {level : Level} (left : ExprContext place (.joined level))
      (operator : Terminal level.operators) (right : ExprTree level.operand) :
      ExprContext place (.joined level)
  | joinRight {level : Level} (left : ExprTree (.joined level))
      (operator : Terminal level.operators) (right : ExprContext place level.operand) :
      ExprContext place (.joined level)
  | signed (sign : Terminal signKinds) (e : ExprContext place .unary) : ExprContext place .unary
  | unsigned (e : ExprContext place .primary) : ExprContext place .unary
  | group (opening : Mark .leftParen) (inner : ExprContext place .assignment)
      (closing : Mark .rightParen) : ExprContext place .primary

/-- A variable declaration with an open place in its initializer. -/
structure VariableDeclarationContext (place : ExprForm) where
  word : Mark (.keyword .varWord)
  name : Mark .identifier
  equals : Mark .equal
  initializer : ExprContext place .assignment
  closing : Mark .semicolon

/-- An expression statement with an open place. -/
structure ExpressionStatementContext (place : ExprForm) where
  inner : ExprContext place .assignment
  closing : Mark .semicolon

/-- The first clause of a `for` loop with an open place. -/
inductive ForInitializerContext (place : ExprForm)
  | declaration (d : VariableDeclarationContext place)
  | expression (s : ExpressionStatementContext place)

mutual

/-- **A statement with an open place.** -/
inductive StatementContext (place : ExprForm)
  | forInitializer (word : Mark (.keyword .forWord)) (opening : Mark .leftParen)
      (initializer : ForInitializerContext place) (condition : Option Expression)
      (separator : Mark .semicolon) (increment : Option Expression) (closing : Mark .rightParen)
      (body : Statement)
  | forCondition (word : Mark (.keyword .forWord)) (opening : Mark .leftParen)
      (initializer : ForInitializer) (condition : ExprContext place .assignment)
      (separator : Mark .semicolon) (increment : Option Expression) (closing : Mark .rightParen)
      (body : Statement)
  | forIncrement (word : Mark (.keyword .forWord)) (opening : Mark .leftParen)
      (initializer : ForInitializer) (condition : Option Expression)
      (separator : Mark .semicolon) (increment : ExprContext place .assignment)
      (closing : Mark .rightParen) (body : Statement)
  | forBody (word : Mark (.keyword .forWord)) (opening : Mark .leftParen)
      (initializer : ForInitializer) (condition : Option Expression)
      (separator : Mark .semicolon) (increment : Option Expression) (closing : Mark .rightParen)
      (body : StatementContext place)
  | branchCondition (word : Mark (.keyword .ifWord)) (opening : Mark .leftParen)
      (condition : ExprContext place .assignment) (closing : Mark .rightParen)
      (thenBranch : Statement)
  | branchThen (word : Mark (.keyword .ifWord)) (opening : Mark .leftParen)
      (condition : Expression) (closing : Mark .rightParen) (thenBranch : StatementContext place)
  | branchElseCondition (word : Mark (.keyword .ifWord)) (opening : Mark .leftParen)
      (condition : ExprContext place .assignment) (closing : Mark .rightParen)
      (thenBranch : Statement) (elseWord : Mark (.keyword .elseWord)) (elseBranch : Statement)
  | branchElseThen (word : Mark (.keyword .ifWord)) (opening : Mark .leftParen)
      (condition : Expression) (closing : Mark .rightParen) (thenBranch : StatementContext place)
      (elseWord : Mark (.keyword .elseWord)) (elseBranch : Statement)
  | branchElseElse (word : Mark (.keyword .ifWord)) (opening : Mark .leftParen)
      (condition : Expression) (closing : Mark .rightParen) (thenBranch : Statement)
      (elseWord : Mark (.keyword .elseWord)) (elseBranch : StatementContext place)
  | print (word : Mark (.keyword .printWord)) (inner : ExprContext place .assignment)
      (closing : Mark .semicolon)
  | whileCondition (word : Mark (.keyword .whileWord)) (opening : Mark .leftParen)
      (condition : ExprContext place .assignment) (closing : Mark .rightParen) (body : Statement)
  | whileBody (word : Mark (.keyword .whileWord)) (opening : Mark .leftParen)
      (condition : Expression) (closing : Mark .rightParen) (body : StatementContext place)
  | block (opening : Mark .leftBrace) (before : List Declaration) (d : DeclarationContext place)
      (behind : List Declaration) (closing : Mark .rightBrace)
  | expression (s : ExpressionStatementContext place)

/-- A declaration with an open place. -/
inductive DeclarationContext (place : ExprForm)
  | binding (d : VariableDeclarationContext place)
  | statement (s : StatementContext place)

end

/-- **A program with an open place** in one of its declarations. -/
structure ProgramContext (place : ExprForm) where
  before : List Declaration
  d : DeclarationContext place
  behind : List Declaration

variable {place form : ExprForm}

/-! ## Places inside expressions -/

namespace ExprContext

/-- The derivation with its place filled. -/
def fill (e : ExprTree place) {form : ExprForm} : ExprContext place form → ExprTree form
  | here => e
  | assign name equals value => .assign name equals (value.fill e)
  | plain k => .plain (k.fill e)
  | operand k => .operand (k.fill e)
  | joinLeft left operator right => .join (left.fill e) operator right
  | joinRight left operator right => .join left operator (right.fill e)
  | signed sign k => .signed sign (k.fill e)
  | unsigned k => .unsigned (k.fill e)
  | group opening inner closing => .group opening (inner.fill e) closing

/-- The tokens in front of the place. -/
def front {form : ExprForm} : ExprContext place form → List Token
  | here => []
  | assign name equals value => name.token :: equals.token :: value.front
  | plain k => k.front
  | operand k => k.front
  | joinLeft left _ _ => left.front
  | joinRight left operator right => left.tokens ++ operator.token :: right.front
  | signed sign k => sign.token :: k.front
  | unsigned k => k.front
  | group opening inner _ => opening.token :: inner.front

/-- The tokens behind the place. -/
def back {form : ExprForm} : ExprContext place form → List Token
  | here => []
  | assign _ _ value => value.back
  | plain k => k.back
  | operand k => k.back
  | joinLeft left operator right => left.back ++ operator.token :: right.tokens
  | joinRight _ _ right => right.back
  | signed _ k => k.back
  | unsigned k => k.back
  | group _ inner closing => inner.back ++ [closing.token]

/-- The program tree around the place. -/
def plug (x : Expr) {form : ExprForm} : ExprContext place form → Expr
  | here => x
  | assign name _ value => .assign name.token (value.plug x)
  | plain k => k.plug x
  | operand k => k.plug x
  | @joinLeft _ level left operator right =>
    level.combine (left.plug x) operator.token right.expr
  | @joinRight _ level left operator right =>
    level.combine left.expr operator.token (right.plug x)
  | signed sign k => .unary sign.token (k.plug x)
  | unsigned k => k.plug x
  | group _ inner _ => .grouping (inner.plug x)

/-- What fills a place stands between the tokens around it. -/
theorem tokens_fill (k : ExprContext place form) (e : ExprTree place) :
    (k.fill e).tokens = k.front ++ (e.tokens ++ k.back) := by
  induction k with
  | here => simp [fill, front, back]
  | plain _ ih | operand _ ih | unsigned _ ih => exact ih
  | signed _ _ ih => simp [fill, front, back, ExprTree.tokens, ih]
  | assign _ _ _ ih | joinLeft _ _ _ ih | joinRight _ _ _ ih | group _ _ _ ih =>
    simp [fill, front, back, ExprTree.tokens, ih]

/-- What fills a place stands for a part of the program tree around it. -/
theorem expr_fill (k : ExprContext place form) (e : ExprTree place) :
    (k.fill e).expr = k.plug e.expr := by
  induction k with
  | here => rfl
  | plain _ ih | operand _ ih | unsigned _ ih => exact ih
  | signed _ _ ih => rw [fill, ExprTree.expr, ih, plug]
  | assign _ _ _ ih | joinLeft _ _ _ ih | joinRight _ _ _ ih | group _ _ _ ih =>
    rw [fill, ExprTree.expr, ih, plug]

end ExprContext

/-! ## Places inside the parts of statements -/

namespace VariableDeclarationContext

/-- The variable declaration with its place filled. -/
def fill (k : VariableDeclarationContext place) (e : ExprTree place) : VariableDeclaration :=
  ⟨k.word, k.name, some (k.equals, k.initializer.fill e), k.closing⟩

/-- The tokens in front of the place. -/
def front (k : VariableDeclarationContext place) : List Token :=
  k.word.token :: k.name.token :: k.equals.token :: k.initializer.front

/-- The tokens behind the place. -/
def back (k : VariableDeclarationContext place) : List Token :=
  k.initializer.back ++ [k.closing.token]

/-- The program tree around the place. -/
def plug (k : VariableDeclarationContext place) (x : Expr) : Stmt :=
  .declaration k.name.token (some (k.initializer.plug x))

theorem tokens_fill (k : VariableDeclarationContext place) (e : ExprTree place) :
    (k.fill e).tokens = k.front ++ (e.tokens ++ k.back) := by
  simp [fill, VariableDeclaration.tokens, front, back, ExprContext.tokens_fill]

theorem desugar_fill (k : VariableDeclarationContext place) (e : ExprTree place) :
    (k.fill e).desugar = k.plug e.expr := by
  simp [fill, VariableDeclaration.desugar, plug, ExprContext.expr_fill]

end VariableDeclarationContext

namespace ExpressionStatementContext

/-- The expression statement with its place filled. -/
def fill (k : ExpressionStatementContext place) (e : ExprTree place) : ExpressionStatement :=
  ⟨k.inner.fill e, k.closing⟩

/-- The tokens in front of the place. -/
def front (k : ExpressionStatementContext place) : List Token := k.inner.front

/-- The tokens behind the place. -/
def back (k : ExpressionStatementContext place) : List Token := k.inner.back ++ [k.closing.token]

/-- The program tree around the place. -/
def plug (k : ExpressionStatementContext place) (x : Expr) : Stmt := .expression (k.inner.plug x)

theorem tokens_fill (k : ExpressionStatementContext place) (e : ExprTree place) :
    (k.fill e).tokens = k.front ++ (e.tokens ++ k.back) := by
  simp [fill, ExpressionStatement.tokens, front, back, ExprContext.tokens_fill]

theorem desugar_fill (k : ExpressionStatementContext place) (e : ExprTree place) :
    (k.fill e).desugar = k.plug e.expr := by
  simp [fill, ExpressionStatement.desugar, plug, ExprContext.expr_fill]

end ExpressionStatementContext

namespace ForInitializerContext

/-- The first clause of a loop with its place filled. -/
def fill (e : ExprTree place) : ForInitializerContext place → ForInitializer
  | declaration d => .declaration (d.fill e)
  | expression s => .expression (s.fill e)

/-- The tokens in front of the place. -/
def front : ForInitializerContext place → List Token
  | declaration d => d.front
  | expression s => s.front

/-- The tokens behind the place. -/
def back : ForInitializerContext place → List Token
  | declaration d => d.back
  | expression s => s.back

/-- The program tree around the place. -/
def plug (x : Expr) : ForInitializerContext place → Stmt
  | declaration d => d.plug x
  | expression s => s.plug x

theorem tokens_fill (k : ForInitializerContext place) (e : ExprTree place) :
    (k.fill e).tokens = k.front ++ (e.tokens ++ k.back) := by
  cases k with
  | declaration d => exact d.tokens_fill e
  | expression s => exact s.tokens_fill e

theorem desugar_fill (k : ForInitializerContext place) (e : ExprTree place) :
    (k.fill e).desugar = some (k.plug e.expr) := by
  cases k with
  | declaration d => exact congrArg some (d.desugar_fill e)
  | expression s => exact congrArg some (s.desugar_fill e)

end ForInitializerContext

/-! ## Places inside statements -/

mutual

/-- **The statement with its place filled.** -/
def StatementContext.fill (e : ExprTree place) : StatementContext place → Statement
  | .forInitializer word opening initializer condition separator increment closing body =>
    .forLoop word opening (initializer.fill e) condition separator increment closing body
  | .forCondition word opening initializer condition separator increment closing body =>
    .forLoop word opening initializer (some (condition.fill e)) separator increment closing body
  | .forIncrement word opening initializer condition separator increment closing body =>
    .forLoop word opening initializer condition separator (some (increment.fill e)) closing body
  | .forBody word opening initializer condition separator increment closing body =>
    .forLoop word opening initializer condition separator increment closing (body.fill e)
  | .branchCondition word opening condition closing thenBranch =>
    .branch word opening (condition.fill e) closing thenBranch
  | .branchThen word opening condition closing thenBranch =>
    .branch word opening condition closing (thenBranch.fill e)
  | .branchElseCondition word opening condition closing thenBranch elseWord elseBranch =>
    .branchElse word opening (condition.fill e) closing thenBranch elseWord elseBranch
  | .branchElseThen word opening condition closing thenBranch elseWord elseBranch =>
    .branchElse word opening condition closing (thenBranch.fill e) elseWord elseBranch
  | .branchElseElse word opening condition closing thenBranch elseWord elseBranch =>
    .branchElse word opening condition closing thenBranch elseWord (elseBranch.fill e)
  | .print word inner closing => .print word (inner.fill e) closing
  | .whileCondition word opening condition closing body =>
    .whileLoop word opening (condition.fill e) closing body
  | .whileBody word opening condition closing body =>
    .whileLoop word opening condition closing (body.fill e)
  | .block opening before d behind closing =>
    .block opening (before ++ d.fill e :: behind) closing
  | .expression s => .expression (s.fill e)

/-- The declaration with its place filled. -/
def DeclarationContext.fill (e : ExprTree place) : DeclarationContext place → Declaration
  | .binding d => .binding (d.fill e)
  | .statement s => .statement (s.fill e)

end

mutual

/-- The tokens in front of the place. -/
def StatementContext.front : StatementContext place → List Token
  | .forInitializer word opening initializer _ _ _ _ _ =>
    word.token :: opening.token :: initializer.front
  | .forCondition word opening initializer condition _ _ _ _ =>
    word.token :: opening.token :: (initializer.tokens ++ condition.front)
  | .forIncrement word opening initializer condition separator increment _ _ =>
    word.token :: opening.token :: (initializer.tokens ++ (optionalTokens condition ++
      separator.token :: increment.front))
  | .forBody word opening initializer condition separator increment closing body =>
    word.token :: opening.token :: (initializer.tokens ++ (optionalTokens condition ++
      separator.token :: (optionalTokens increment ++ closing.token :: body.front)))
  | .branchCondition word opening condition _ _ =>
    word.token :: opening.token :: condition.front
  | .branchThen word opening condition closing thenBranch =>
    word.token :: opening.token :: (condition.tokens ++ closing.token :: thenBranch.front)
  | .branchElseCondition word opening condition _ _ _ _ =>
    word.token :: opening.token :: condition.front
  | .branchElseThen word opening condition closing thenBranch _ _ =>
    word.token :: opening.token :: (condition.tokens ++ closing.token :: thenBranch.front)
  | .branchElseElse word opening condition closing thenBranch elseWord elseBranch =>
    word.token :: opening.token :: (condition.tokens ++ closing.token ::
      (thenBranch.tokens ++ elseWord.token :: elseBranch.front))
  | .print word inner _ => word.token :: inner.front
  | .whileCondition word opening condition _ _ => word.token :: opening.token :: condition.front
  | .whileBody word opening condition closing body =>
    word.token :: opening.token :: (condition.tokens ++ closing.token :: body.front)
  | .block opening before d _ _ => opening.token :: (Declaration.allTokens before ++ d.front)
  | .expression s => s.front

/-- The tokens in front of the place. -/
def DeclarationContext.front : DeclarationContext place → List Token
  | .binding d => d.front
  | .statement s => s.front

end

mutual

/-- The tokens behind the place. -/
def StatementContext.back : StatementContext place → List Token
  | .forInitializer _ _ initializer condition separator increment closing body =>
    initializer.back ++ (optionalTokens condition ++
      separator.token :: (optionalTokens increment ++ closing.token :: body.tokens))
  | .forCondition _ _ _ condition separator increment closing body =>
    condition.back ++ separator.token :: (optionalTokens increment ++ closing.token :: body.tokens)
  | .forIncrement _ _ _ _ _ increment closing body =>
    increment.back ++ closing.token :: body.tokens
  | .forBody _ _ _ _ _ _ _ body => body.back
  | .branchCondition _ _ condition closing thenBranch =>
    condition.back ++ closing.token :: thenBranch.tokens
  | .branchThen _ _ _ _ thenBranch => thenBranch.back
  | .branchElseCondition _ _ condition closing thenBranch elseWord elseBranch =>
    condition.back ++ closing.token ::
      (thenBranch.tokens ++ elseWord.token :: elseBranch.tokens)
  | .branchElseThen _ _ _ _ thenBranch elseWord elseBranch =>
    thenBranch.back ++ elseWord.token :: elseBranch.tokens
  | .branchElseElse _ _ _ _ _ _ elseBranch => elseBranch.back
  | .print _ inner closing => inner.back ++ [closing.token]
  | .whileCondition _ _ condition closing body => condition.back ++ closing.token :: body.tokens
  | .whileBody _ _ _ _ body => body.back
  | .block _ _ d behind closing => d.back ++ (Declaration.allTokens behind ++ [closing.token])
  | .expression s => s.back

/-- The tokens behind the place. -/
def DeclarationContext.back : DeclarationContext place → List Token
  | .binding d => d.back
  | .statement s => s.back

end

mutual

/-- **The program tree around the place**, where a `for` loop is written with a `while` loop. -/
def StatementContext.plug (x : Expr) : StatementContext place → Stmt
  | .forInitializer _ _ initializer condition _ increment _ body =>
    withInitializer (some (initializer.plug x))
      (.loop (conditionOrTrue condition) (withIncrement increment body.desugar))
  | .forCondition _ _ initializer condition _ increment _ body =>
    withInitializer initializer.desugar
      (.loop (condition.plug x) (withIncrement increment body.desugar))
  | .forIncrement _ _ initializer condition _ increment _ body =>
    withInitializer initializer.desugar
      (.loop (conditionOrTrue condition) (.block [body.desugar, .expression (increment.plug x)]))
  | .forBody _ _ initializer condition _ increment _ body =>
    withInitializer initializer.desugar
      (.loop (conditionOrTrue condition) (withIncrement increment (body.plug x)))
  | .branchCondition _ _ condition _ thenBranch =>
    .branch (condition.plug x) thenBranch.desugar none
  | .branchThen _ _ condition _ thenBranch => .branch condition.expr (thenBranch.plug x) none
  | .branchElseCondition _ _ condition _ thenBranch _ elseBranch =>
    .branch (condition.plug x) thenBranch.desugar (some elseBranch.desugar)
  | .branchElseThen _ _ condition _ thenBranch _ elseBranch =>
    .branch condition.expr (thenBranch.plug x) (some elseBranch.desugar)
  | .branchElseElse _ _ condition _ thenBranch _ elseBranch =>
    .branch condition.expr thenBranch.desugar (some (elseBranch.plug x))
  | .print _ inner _ => .print (inner.plug x)
  | .whileCondition _ _ condition _ body => .loop (condition.plug x) body.desugar
  | .whileBody _ _ condition _ body => .loop condition.expr (body.plug x)
  | .block _ before d behind _ =>
    .block (Declaration.desugarAll before ++ d.plug x :: Declaration.desugarAll behind)
  | .expression s => s.plug x

/-- The program tree around the place. -/
def DeclarationContext.plug (x : Expr) : DeclarationContext place → Stmt
  | .binding d => d.plug x
  | .statement s => s.plug x

end

section

open StatementContext

mutual

/-- What fills a place of a statement stands between the tokens around it. -/
theorem StatementContext.tokens_fill (e : ExprTree place) :
    ∀ k : StatementContext place, (k.fill e).tokens = k.front ++ (e.tokens ++ k.back)
  | .forInitializer _ _ initializer _ _ _ _ _ => by
    simp [fill, Statement.tokens, front, back, initializer.tokens_fill e]
  | .forCondition _ _ _ condition _ _ _ _ => by
    simp [fill, Statement.tokens, front, back, optionalTokens, condition.tokens_fill e]
  | .forIncrement _ _ _ _ _ increment _ _ => by
    simp [fill, Statement.tokens, front, back, optionalTokens, increment.tokens_fill e]
  | .forBody _ _ _ _ _ _ _ body => by
    simp [fill, Statement.tokens, front, back, body.tokens_fill e]
  | .branchCondition _ _ condition _ _ => by
    simp [fill, Statement.tokens, front, back, condition.tokens_fill e]
  | .branchThen _ _ _ _ thenBranch => by
    simp [fill, Statement.tokens, front, back, thenBranch.tokens_fill e]
  | .branchElseCondition _ _ condition _ _ _ _ => by
    simp [fill, Statement.tokens, front, back, condition.tokens_fill e]
  | .branchElseThen _ _ _ _ thenBranch _ _ => by
    simp [fill, Statement.tokens, front, back, thenBranch.tokens_fill e]
  | .branchElseElse _ _ _ _ _ _ elseBranch => by
    simp [fill, Statement.tokens, front, back, elseBranch.tokens_fill e]
  | .print _ inner _ => by simp [fill, Statement.tokens, front, back, inner.tokens_fill e]
  | .whileCondition _ _ condition _ _ => by
    simp [fill, Statement.tokens, front, back, condition.tokens_fill e]
  | .whileBody _ _ _ _ body => by simp [fill, Statement.tokens, front, back, body.tokens_fill e]
  | .block _ _ d _ _ => by
    simp [fill, Statement.tokens, Declaration.allTokens_append, Declaration.allTokens, front, back,
      d.tokens_fill e]
  | .expression s => s.tokens_fill e

/-- What fills a place of a declaration stands between the tokens around it. -/
theorem DeclarationContext.tokens_fill (e : ExprTree place) :
    ∀ k : DeclarationContext place, (k.fill e).tokens = k.front ++ (e.tokens ++ k.back)
  | .binding d => d.tokens_fill e
  | .statement s => s.tokens_fill e

end

mutual

/-- What fills a place of a statement stands for a part of the program tree around it. -/
theorem StatementContext.desugar_fill (e : ExprTree place) :
    ∀ k : StatementContext place, (k.fill e).desugar = k.plug e.expr
  | .forInitializer _ _ initializer _ _ _ _ _ => by
    rw [fill, Statement.desugar, initializer.desugar_fill e, plug]
  | .forCondition _ _ _ condition _ _ _ _ => by
    rw [fill, Statement.desugar, conditionOrTrue, condition.expr_fill e, plug]
  | .forIncrement _ _ _ _ _ increment _ _ => by
    rw [fill, Statement.desugar, withIncrement, increment.expr_fill e, plug]
  | .forBody _ _ _ _ _ _ _ body => by rw [fill, Statement.desugar, body.desugar_fill e, plug]
  | .branchCondition _ _ condition _ _ => by
    rw [fill, Statement.desugar, condition.expr_fill e, plug]
  | .branchThen _ _ _ _ thenBranch => by
    rw [fill, Statement.desugar, thenBranch.desugar_fill e, plug]
  | .branchElseCondition _ _ condition _ _ _ _ => by
    rw [fill, Statement.desugar, condition.expr_fill e, plug]
  | .branchElseThen _ _ _ _ thenBranch _ _ => by
    rw [fill, Statement.desugar, thenBranch.desugar_fill e, plug]
  | .branchElseElse _ _ _ _ _ _ elseBranch => by
    rw [fill, Statement.desugar, elseBranch.desugar_fill e, plug]
  | .print _ inner _ => by rw [fill, Statement.desugar, inner.expr_fill e, plug]
  | .whileCondition _ _ condition _ _ => by
    rw [fill, Statement.desugar, condition.expr_fill e, plug]
  | .whileBody _ _ _ _ body => by rw [fill, Statement.desugar, body.desugar_fill e, plug]
  | .block _ _ d _ _ => by
    rw [fill, Statement.desugar, Declaration.desugarAll_append, Declaration.desugarAll,
      d.desugar_fill e, plug]
  | .expression s => s.desugar_fill e

/-- What fills a place of a declaration stands for a part of the program tree around it. -/
theorem DeclarationContext.desugar_fill (e : ExprTree place) :
    ∀ k : DeclarationContext place, (k.fill e).desugar = k.plug e.expr
  | .binding d => d.desugar_fill e
  | .statement s => s.desugar_fill e

end

/-- What fills a place has no say in whether the statement ends in a conditional without `else`. -/
theorem StatementContext.endsOpen_fill (e e' : ExprTree place) :
    ∀ k : StatementContext place, (k.fill e).endsOpen = (k.fill e').endsOpen
  | .forBody _ _ _ _ _ _ _ body => body.endsOpen_fill e e'
  | .branchElseElse _ _ _ _ _ _ elseBranch => elseBranch.endsOpen_fill e e'
  | .whileBody _ _ _ _ body => body.endsOpen_fill e e'
  | .forInitializer .. | .forCondition .. | .forIncrement .. | .branchCondition ..
  | .branchThen .. | .branchElseCondition .. | .branchElseThen .. | .print ..
  | .whileCondition .. | .block .. | .expression _ => rfl

mutual

/-- What fills a place has no say in which conditional an `else` belongs to. -/
theorem StatementContext.proper_fill_iff (e e' : ExprTree place) :
    ∀ k : StatementContext place, (k.fill e).Proper ↔ (k.fill e').Proper
  | .forBody _ _ _ _ _ _ _ body => body.proper_fill_iff e e'
  | .branchThen _ _ _ _ thenBranch => thenBranch.proper_fill_iff e e'
  | .branchElseThen _ _ _ _ thenBranch _ _ => by
    rw [fill, fill, Statement.Proper, Statement.Proper, thenBranch.proper_fill_iff e e',
      thenBranch.endsOpen_fill e e']
  | .branchElseElse _ _ _ _ _ _ elseBranch => by
    rw [fill, fill, Statement.Proper, Statement.Proper, elseBranch.proper_fill_iff e e']
  | .whileBody _ _ _ _ body => body.proper_fill_iff e e'
  | .block _ before d behind _ => by
    rw [fill, fill, Statement.Proper, Statement.Proper, Declaration.allProper_append_iff,
      Declaration.allProper_append_iff, Declaration.AllProper, Declaration.AllProper,
      d.proper_fill_iff e e']
  | .forInitializer .. | .forCondition .. | .forIncrement .. | .branchCondition ..
  | .branchElseCondition .. | .print .. | .whileCondition .. | .expression _ => Iff.rfl

/-- What fills a place has no say in which conditional an `else` belongs to. -/
theorem DeclarationContext.proper_fill_iff (e e' : ExprTree place) :
    ∀ k : DeclarationContext place, (k.fill e).Proper ↔ (k.fill e').Proper
  | .binding _ => Iff.rfl
  | .statement s => s.proper_fill_iff e e'

end

end

/-! ## Places inside programs -/

namespace ProgramContext

/-- **The declarations with their place filled.** -/
def fill (k : ProgramContext place) (e : ExprTree place) : List Declaration :=
  k.before ++ k.d.fill e :: k.behind

/-- The tokens in front of the place. -/
def front (k : ProgramContext place) : List Token := Declaration.allTokens k.before ++ k.d.front

/-- The tokens behind the place. -/
def back (k : ProgramContext place) : List Token := k.d.back ++ Declaration.allTokens k.behind

/-- **The statements around the place.** -/
def plug (k : ProgramContext place) (x : Expr) : List Stmt :=
  Declaration.desugarAll k.before ++ k.d.plug x :: Declaration.desugarAll k.behind

/-- **What fills a place stands between the tokens around it.** -/
theorem tokens_fill (k : ProgramContext place) (e : ExprTree place) :
    Declaration.allTokens (k.fill e) = k.front ++ (e.tokens ++ k.back) := by
  simp [fill, Declaration.allTokens_append, Declaration.allTokens, k.d.tokens_fill e, front, back]

/-- **What fills a place stands for a part of the statements around it.** -/
theorem desugar_fill (k : ProgramContext place) (e : ExprTree place) :
    Declaration.desugarAll (k.fill e) = k.plug e.expr := by
  rw [fill, Declaration.desugarAll_append, Declaration.desugarAll, k.d.desugar_fill e, plug]

/-- What fills a place has no say in which conditional an `else` belongs to. -/
theorem allProper_fill_iff (k : ProgramContext place) (e e' : ExprTree place) :
    Declaration.AllProper (k.fill e) ↔ Declaration.AllProper (k.fill e') := by
  rw [fill, fill, Declaration.allProper_append_iff, Declaration.allProper_append_iff,
    Declaration.AllProper, Declaration.AllProper, k.d.proper_fill_iff e e']

end ProgramContext

/-! ## Mapping the program tree around a place -/

section

open StatementContext

variable {g : Token → Token} {r : Expr → Expr} {x y : Expr}

/-- Statements that are mapped to the same are so in the round of a loop. -/
theorem mapped_withIncrement {s s' : Stmt}
    (h : s.mapped g r = s'.mapped g r) (increment : Option Expression) :
    (withIncrement increment s).mapped g r = (withIncrement increment s').mapped g r := by
  cases increment with
  | none => exact h
  | some e => simp [withIncrement, Stmt.mapped, Stmt.allMapped, h]

/-- Statements that are mapped to the same are so behind an initializer. -/
theorem mapped_withInitializer {s s' : Stmt}
    (h : s.mapped g r = s'.mapped g r) (initializer : Option Stmt) :
    (withInitializer initializer s).mapped g r = (withInitializer initializer s').mapped g r := by
  cases initializer with
  | none => exact h
  | some t => simp [withInitializer, Stmt.mapped, Stmt.allMapped, h]

mutual

/-- Expressions that are mapped to the same wherever they stand are so inside a statement. -/
theorem StatementContext.mapped_plug
    (h : ∀ c : ExprContext place .assignment, r (c.plug x) = r (c.plug y)) :
    ∀ k : StatementContext place, (k.plug x).mapped g r = (k.plug y).mapped g r
  | .forInitializer _ _ initializer _ _ _ _ _ => by
    cases initializer <;>
      simp [plug, ForInitializerContext.plug, VariableDeclarationContext.plug,
        ExpressionStatementContext.plug, withInitializer, Stmt.mapped, Stmt.allMapped,
        h]
  | .forCondition _ _ _ condition _ _ _ _ => by
    refine mapped_withInitializer ?_ _
    rw [Stmt.mapped, Stmt.mapped, h condition]
  | .forIncrement _ _ _ _ _ increment _ _ => by
    refine mapped_withInitializer ?_ _
    simp [Stmt.mapped, Stmt.allMapped, h increment]
  | .forBody _ _ _ _ _ increment _ body => by
    refine mapped_withInitializer ?_ _
    rw [Stmt.mapped, Stmt.mapped, mapped_withIncrement (body.mapped_plug h)]
  | .branchCondition _ _ condition _ _ => by
    rw [plug, plug, Stmt.mapped, Stmt.mapped, h condition]
  | .branchThen _ _ _ _ thenBranch => by
    rw [plug, plug, Stmt.mapped, Stmt.mapped, thenBranch.mapped_plug h]
  | .branchElseCondition _ _ condition _ _ _ _ => by
    rw [plug, plug, Stmt.mapped, Stmt.mapped, h condition]
  | .branchElseThen _ _ _ _ thenBranch _ _ => by
    rw [plug, plug, Stmt.mapped, Stmt.mapped, thenBranch.mapped_plug h]
  | .branchElseElse _ _ _ _ _ _ elseBranch => by
    rw [plug, plug, Stmt.mapped, Stmt.mapped, elseBranch.mapped_plug h]
  | .print _ inner _ => by rw [plug, plug, Stmt.mapped, Stmt.mapped, h inner]
  | .whileCondition _ _ condition _ _ => by
    rw [plug, plug, Stmt.mapped, Stmt.mapped, h condition]
  | .whileBody _ _ _ _ body => by
    rw [plug, plug, Stmt.mapped, Stmt.mapped, body.mapped_plug h]
  | .block _ _ d _ _ => by
    rw [plug, plug, Stmt.mapped, Stmt.mapped, Stmt.allMapped_append, Stmt.allMapped_append,
      Stmt.allMapped, Stmt.allMapped, d.mapped_plug h]
  | .expression s => by
    simp [plug, ExpressionStatementContext.plug, Stmt.mapped, h s.inner]

/-- Expressions that are mapped to the same wherever they stand are so inside a declaration. -/
theorem DeclarationContext.mapped_plug
    (h : ∀ c : ExprContext place .assignment, r (c.plug x) = r (c.plug y)) :
    ∀ k : DeclarationContext place, (k.plug x).mapped g r = (k.plug y).mapped g r
  | .binding d => by
    simp [DeclarationContext.plug, VariableDeclarationContext.plug, Stmt.mapped,
      h d.initializer]
  | .statement s => s.mapped_plug h

end

/-- **Expressions that are mapped to the same wherever they stand** are so inside a program. -/
theorem ProgramContext.allMapped_plug
    (h : ∀ c : ExprContext place .assignment, r (c.plug x) = r (c.plug y))
    (k : ProgramContext place) :
    Stmt.allMapped g r (k.plug x) = Stmt.allMapped g r (k.plug y) := by
  rw [ProgramContext.plug, ProgramContext.plug, Stmt.allMapped_append, Stmt.allMapped_append,
    Stmt.allMapped, Stmt.allMapped, k.d.mapped_plug h]

end

/-! ## Parentheses -/

namespace ExprTree

/-- An operand without a sign as a derivation of any nonterminal. -/
def liftTo (e : ExprTree .primary) : (form : ExprForm) → ExprTree form
  | .assignment => .plain (e.lift .logicOr)
  | .joined level => e.lift level
  | .unary => .unsigned e
  | .primary => e

@[simp] theorem tokens_lift (e : ExprTree .primary) (level : Level) :
    (e.lift level).tokens = e.tokens := by cases level <;> rfl

@[simp] theorem tokens_liftTo (e : ExprTree .primary) (form : ExprForm) :
    (e.liftTo form).tokens = e.tokens := by
  cases form with
  | assignment | joined => exact e.tokens_lift _
  | unary | primary => rfl

@[simp] theorem expr_liftTo (e : ExprTree .primary) (form : ExprForm) :
    (e.liftTo form).expr = e.expr := by
  cases form with
  | assignment | joined => exact e.expr_lift _
  | unary | primary => rfl

/-- Every derivation is one of a whole expression. -/
def whole : {form : ExprForm} → ExprTree form → Expression
  | .assignment, e => e
  | .joined .logicOr, e => .plain e
  | .joined .logicAnd, e => .plain (.operand e)
  | .joined .equality, e => .plain (.operand (.operand e))
  | .joined .comparison, e => .plain (.operand (.operand (.operand e)))
  | .joined .term, e => .plain (.operand (.operand (.operand (.operand e))))
  | .joined .factor, e => .plain (.operand (.operand (.operand (.operand (.operand e)))))
  | .unary, e => .plain (.operand (.operand (.operand (.operand (.operand (.operand e))))))
  | .primary, e => .plain (e.lift .logicOr)

@[simp] theorem tokens_whole (e : ExprTree form) : e.whole.tokens = e.tokens := by
  cases form with
  | assignment | unary => rfl
  | joined level => cases level <;> rfl
  | primary => exact e.tokens_lift .logicOr

@[simp] theorem expr_whole (e : ExprTree form) : e.whole.expr = e.expr := by
  cases form with
  | assignment | unary => rfl
  | joined level => cases level <;> rfl
  | primary => exact e.expr_lift .logicOr

/-- **A derivation between parentheses**, as a derivation of the same nonterminal. -/
def parenthesized (opening : Mark .leftParen) (e : ExprTree form) (closing : Mark .rightParen) :
    ExprTree form :=
  (ExprTree.group opening e.whole closing).liftTo form

@[simp] theorem tokens_parenthesized (opening : Mark .leftParen) (e : ExprTree form)
    (closing : Mark .rightParen) :
    (parenthesized opening e closing).tokens =
      opening.token :: (e.tokens ++ [closing.token]) := by
  rw [parenthesized, tokens_liftTo, tokens, tokens_whole]

@[simp] theorem expr_parenthesized (opening : Mark .leftParen) (e : ExprTree form)
    (closing : Mark .rightParen) :
    (parenthesized opening e closing).expr = .grouping e.expr := by
  rw [parenthesized, expr_liftTo, expr, expr_whole]

end ExprTree

end Lox.Surface
