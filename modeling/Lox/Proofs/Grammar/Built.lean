import Lox.Proofs.Grammar.Surface

/-! # Program trees built from tokens

The trees that are read hold tokens that were read, each one of a kind that its place allows, and
their literals are those of tokens. What is true of all tokens of a program is therefore true of the
tokens in its tree.

* **`Expr.Built`**, **`Stmt.Built`** — a tree over tokens and literals that are allowed in it;
* **`Surface.Supplies`** — tokens that are allowed, with their literals;
* **`Surface.built_desugarAll`** — the statements of a program are built from what its tokens
  supply. -/

namespace Lox

open Surface

/-- The kinds of the operators between two operands that are both evaluated. -/
def binaryKinds : List TokenKind :=
  [.bangEqual, .equalEqual, .greater, .greaterEqual, .less, .lessEqual, .minus, .plus, .slash,
    .star]

/-- The kinds of the operators whose left operand may decide. -/
def logicalKinds : List TokenKind := [.keyword .orWord, .keyword .andWord]

/-- **An expression is built from tokens and literals**: its tokens satisfy `T`, each one of a kind
that its place allows, and its literals satisfy `L`. -/
def Expr.Built (T : Token → Prop) (L : Option Value → Prop) : Expr → Prop
  | .literal value => L value
  | .grouping inner => inner.Built T L
  | .unary operator right => (T operator ∧ operator.kind ∈ signKinds) ∧ right.Built T L
  | .binary left operator right =>
    left.Built T L ∧ (T operator ∧ operator.kind ∈ binaryKinds) ∧ right.Built T L
  | .logical left operator right =>
    left.Built T L ∧ (T operator ∧ operator.kind ∈ logicalKinds) ∧ right.Built T L
  | .reference name => T name ∧ name.kind = .identifier
  | .assign name value => (T name ∧ name.kind = .identifier) ∧ value.Built T L
  | .misplaced _ => False

mutual

/-- The expressions of the statement are built from tokens and literals, and the names that it
declares are such tokens. -/
def Stmt.Built (T : Token → Prop) (L : Option Value → Prop) : Stmt → Prop
  | .expression inner => inner.Built T L
  | .print inner => inner.Built T L
  | .declaration name none => T name ∧ name.kind = .identifier
  | .declaration name (some initializer) =>
    (T name ∧ name.kind = .identifier) ∧ initializer.Built T L
  | .block body => Stmt.AllBuilt T L body
  | .branch condition thenBranch none => condition.Built T L ∧ thenBranch.Built T L
  | .branch condition thenBranch (some elseBranch) =>
    condition.Built T L ∧ thenBranch.Built T L ∧ elseBranch.Built T L
  | .loop condition body => condition.Built T L ∧ body.Built T L
  | .misplaced _ => False

/-- The statements are built from tokens and literals. -/
def Stmt.AllBuilt (T : Token → Prop) (L : Option Value → Prop) : List Stmt → Prop
  | [] => True
  | s :: rest => s.Built T L ∧ Stmt.AllBuilt T L rest

end

namespace Surface

variable {T : Token → Prop} {L : Option Value → Prop}

/-- Tokens supply what trees are built from: they satisfy `T`, and what a literal among them yields
satisfies `L`. -/
def Supplies (T : Token → Prop) (L : Option Value → Prop) (ts : List Token) : Prop :=
  ∀ t ∈ ts, T t ∧ (t.kind ∈ literalKinds → L (literalValue t))

@[simp] theorem supplies_cons {t : Token} {ts : List Token} :
    Supplies T L (t :: ts) ↔
      (T t ∧ (t.kind ∈ literalKinds → L (literalValue t))) ∧ Supplies T L ts :=
  List.forall_mem_cons

@[simp] theorem supplies_append {ts ts' : List Token} :
    Supplies T L (ts ++ ts') ↔ Supplies T L ts ∧ Supplies T L ts' :=
  List.forall_mem_append

/-- The node of a level is built from its operands and its operator. -/
theorem built_combine {level : Level} {left right : Expr} (operator : Terminal level.operators)
    (hleft : left.Built T L) (hT : T operator.token) (hright : right.Built T L) :
    (level.combine left operator.token right).Built T L := by
  have hmem {kinds : List TokenKind} (h : ∀ k ∈ level.operators, k ∈ kinds) :
      operator.token.kind ∈ kinds := h _ operator.kind_mem
  cases level with
  | logicOr | logicAnd => exact ⟨hleft, ⟨hT, hmem (by decide)⟩, hright⟩
  | equality | comparison | term | factor => exact ⟨hleft, ⟨hT, hmem (by decide)⟩, hright⟩

/-- **The program tree of an expression is built from what its tokens supply.** -/
theorem ExprTree.built_expr {form : ExprForm} (t : ExprTree form) (h : Supplies T L t.tokens) :
    t.expr.Built T L := by
  induction t with
  | plain _ ih | operand _ ih | unsigned _ ih => exact ih h
  | assign name equals value ih =>
    rw [tokens, supplies_cons, supplies_cons] at h
    exact ⟨⟨h.1.1, name.kind_token⟩, ih h.2.2⟩
  | join left operator right ihLeft ihRight =>
    rw [tokens, supplies_append, supplies_cons] at h
    exact built_combine operator (ihLeft h.1) h.2.1.1 (ihRight h.2.2)
  | signed sign e ih =>
    rw [tokens, supplies_cons] at h
    exact ⟨⟨h.1.1, sign.kind_mem⟩, ih h.2⟩
  | literal t =>
    rw [tokens, supplies_cons] at h
    exact h.1.2 t.kind_mem
  | reference t =>
    rw [tokens, supplies_cons] at h
    exact ⟨h.1.1, t.kind_token⟩
  | group opening inner closing ih =>
    rw [tokens, supplies_cons, supplies_append] at h
    exact ih h.2.1

/-- A variable declaration is built from what its tokens supply. -/
theorem VariableDeclaration.built_desugar (d : VariableDeclaration) (h : Supplies T L d.tokens) :
    d.desugar.Built T L := by
  obtain ⟨word, name, initializer, closing⟩ := d
  rw [tokens, supplies_cons, supplies_cons] at h
  cases initializer with
  | none => exact ⟨h.2.1.1, name.kind_token⟩
  | some p =>
    obtain ⟨equals, e⟩ := p
    obtain ⟨-, hname, hrest⟩ := h
    rw [supplies_append, supplies_cons] at hrest
    exact ⟨⟨hname.1, name.kind_token⟩, e.built_expr hrest.1.2⟩

/-- An expression statement is built from what its tokens supply. -/
theorem ExpressionStatement.built_desugar (s : ExpressionStatement) (h : Supplies T L s.tokens) :
    s.desugar.Built T L :=
  s.inner.built_expr (supplies_append.1 h).1

/-- The first clause of a `for` loop is built from what its tokens supply. -/
theorem ForInitializer.built_desugar (i : ForInitializer) (h : Supplies T L i.tokens) :
    ∀ s ∈ i.desugar, s.Built T L := by
  cases i with
  | declaration d =>
    rintro _ ⟨⟩
    exact d.built_desugar h
  | expression s =>
    rintro _ ⟨⟩
    exact s.built_desugar h
  | absent closing => exact nofun

/-- A `for` loop is built with its parts; where it has no condition, it is built with `true`. -/
theorem built_forLoop (htrue : L (some (.boolean true))) {initializer : Option Stmt}
    {condition increment : Option Expression} {body : Stmt}
    (hinitializer : ∀ s ∈ initializer, s.Built T L)
    (hcondition : Supplies T L (optionalTokens condition))
    (hincrement : Supplies T L (optionalTokens increment)) (hbody : body.Built T L) :
    (withInitializer initializer
      (.loop (conditionOrTrue condition) (withIncrement increment body))).Built T L := by
  -- the loop without its initializer, with a condition and an increment or without
  have hloop :
      (Stmt.loop (conditionOrTrue condition) (withIncrement increment body)).Built T L := by
    refine ⟨?_, ?_⟩
    · cases condition with
      | none => exact htrue
      | some e => exact e.built_expr hcondition
    · cases increment with
      | none => exact hbody
      | some e => exact ⟨hbody, e.built_expr hincrement, trivial⟩
  cases initializer with
  | none => exact hloop
  | some s => exact ⟨hinitializer s rfl, hloop, trivial⟩

mutual

/-- **The program tree of a statement is built from what its tokens supply.** -/
theorem Statement.built_desugar (htrue : L (some (.boolean true))) :
    ∀ s : Statement, Supplies T L s.tokens → s.desugar.Built T L
  | .forLoop word opening initializer condition separator increment closing body, h => by
    simp only [Statement.tokens, supplies_cons, supplies_append] at h
    obtain ⟨-, -, hinitializer, hcondition, -, hincrement, -, hbody⟩ := h
    exact built_forLoop htrue (initializer.built_desugar hinitializer) hcondition hincrement
      (Statement.built_desugar htrue body hbody)
  | .branch word opening condition closing thenBranch, h => by
    simp only [Statement.tokens, supplies_cons, supplies_append] at h
    obtain ⟨-, -, hcondition, -, hthen⟩ := h
    exact ⟨condition.built_expr hcondition, Statement.built_desugar htrue thenBranch hthen⟩
  | .branchElse word opening condition closing thenBranch elseWord elseBranch, h => by
    simp only [Statement.tokens, supplies_cons, supplies_append] at h
    obtain ⟨-, -, hcondition, -, hthen, -, helse⟩ := h
    exact ⟨condition.built_expr hcondition, Statement.built_desugar htrue thenBranch hthen,
      Statement.built_desugar htrue elseBranch helse⟩
  | .print word inner closing, h => by
    simp only [Statement.tokens, supplies_cons, supplies_append] at h
    exact inner.built_expr h.2.1
  | .whileLoop word opening condition closing body, h => by
    simp only [Statement.tokens, supplies_cons, supplies_append] at h
    obtain ⟨-, -, hcondition, -, hbody⟩ := h
    exact ⟨condition.built_expr hcondition, Statement.built_desugar htrue body hbody⟩
  | .block opening body closing, h => by
    simp only [Statement.tokens, supplies_cons, supplies_append] at h
    exact built_desugarAll htrue body h.2.1
  | .expression s, h => s.built_desugar h

/-- The program tree of a declaration is built from what its tokens supply. -/
theorem Declaration.built_desugar (htrue : L (some (.boolean true))) :
    ∀ d : Declaration, Supplies T L d.tokens → d.desugar.Built T L
  | .binding d, h => d.built_desugar h
  | .statement s, h => Statement.built_desugar htrue s h

/-- **The program trees of declarations are built from what their tokens supply.** -/
theorem built_desugarAll (htrue : L (some (.boolean true))) :
    ∀ ds : List Declaration, Supplies T L (Declaration.allTokens ds) →
      Stmt.AllBuilt T L (Declaration.desugarAll ds)
  | [], _ => trivial
  | d :: ds, h => by
    rw [Declaration.allTokens, supplies_append] at h
    exact ⟨Declaration.built_desugar htrue d h.1, built_desugarAll htrue ds h.2⟩

end

end Surface

end Lox
