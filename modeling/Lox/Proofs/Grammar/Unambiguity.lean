import Lox.Proofs.Grammar.Programs

/-! # Surface programs are unambiguous

No two derivations have the same tokens. An expression is determined by its tokens together with its
program tree, and the rules for expressions determine the program tree; statements are told apart by
their first tokens, and a conditional with an `else` from one without by the proviso on the nearest
conditional.

* **`ExprTree.eq_of_tokens_of_expr`** — an expression is determined by its tokens and its program
  tree;
* **`Statement.eq_of_spans`** — a statement at the front of a list of tokens is determined by the
  list;
* **`Program.eq_of_tokens`** — a program is determined by its tokens. -/

namespace Lox.Surface

open Grammar Rule

/-! ## Expressions -/

/-- How many tokens a derivation with a given program tree has. -/
def exprWidth : Expr → Nat
  | .literal _ | .reference _ => 1
  | .unary _ e => exprWidth e + 1
  | .binary left _ right | .logical left _ right => exprWidth left + 1 + exprWidth right
  | .grouping e | .assign _ e => exprWidth e + 2
  | .misplaced _ => 0

/-- The program tree of an expression determines how many tokens it has. -/
theorem ExprTree.length_tokens {form : ExprForm} (t : ExprTree form) :
    t.tokens.length = exprWidth t.expr := by
  induction t with
  | plain e ih => exact ih
  | operand e ih => exact ih
  | unsigned e ih => exact ih
  | literal t => rfl
  | reference t => rfl
  | signed sign e ih => rw [tokens, expr, exprWidth, List.length_cons, ih]
  | group opening inner closing ih =>
    rw [tokens, expr, exprWidth, List.length_cons, List.length_append, ih]
    rfl
  | assign name equals value ih =>
    rw [tokens, expr, exprWidth, List.length_cons, List.length_cons, ih]
  | @join level left operator right ihLeft ihRight =>
    have hwidth : exprWidth (level.combine left.expr operator.token right.expr) =
        exprWidth left.expr + 1 + exprWidth right.expr := by cases level <;> rfl
    rw [tokens, expr, hwidth, List.length_append, List.length_cons, ihLeft, ihRight]
    omega

/-- The operator at the root of a program tree of an expression. -/
def rootOperator? : Expr → Option Token
  | .binary _ operator _ | .logical _ operator _ => some operator
  | _ => none

/-- The node of a level has its operator at the root. -/
@[simp] theorem rootOperator?_combine (level : Level) (left right : Expr) (operator : Token) :
    rootOperator? (level.combine left operator right) = some operator := by cases level <;> rfl

/-- An operator at the root is one that the nonterminal absorbs. -/
theorem ExprTree.kind_mem_absorbs {form : ExprForm} {t : ExprTree form} {operator : Token}
    (h : rootOperator? t.expr = some operator) : operator.kind ∈ form.absorbs := by
  induction t with
  | assign => cases h
  | plain e ih => exact List.mem_cons_of_mem _ (ih h)
  | operand e ih =>
    rw [ExprForm.absorbs_joined]
    exact List.mem_append_right _ (ih h)
  | @join level left operator' right =>
    rw [expr, rootOperator?_combine] at h
    cases h
    rw [ExprForm.absorbs_joined]
    exact List.mem_append_left _ operator'.kind_mem
  | signed => cases h
  | unsigned e ih => exact (List.not_mem_nil (ih h)).elim
  | literal => cases h
  | reference => cases h
  | group => cases h

/-- The program tree of an operand has no operator of the level around it at the root. -/
theorem ExprTree.expr_operand_ne_combine {level : Level} (e : ExprTree level.operand)
    (operator : Terminal level.operators) (left right : Expr) :
    e.expr ≠ level.combine left operator.token right := by
  intro h
  have hroot : rootOperator? e.expr = some operator.token := by rw [h, rootOperator?_combine]
  exact level.not_mem_operand_absorbs operator.kind_mem (kind_mem_absorbs hroot)

/-- Only an assignment has the program tree of one. -/
theorem ExprTree.expr_ne_assign {form : ExprForm} (t : ExprTree form)
    (hform : form ≠ .assignment) (name : Token) (value : Expr) : t.expr ≠ .assign name value := by
  intro h
  -- the levels below an assignment are passed one by one
  induction t with
  | assign | plain => exact hform rfl
  | @operand level e ih => exact ih (by cases level <;> nofun) h
  | @join level => cases level <;> cases h
  | unsigned e ih => exact ih nofun h
  | signed | literal | reference | group => cases h

/-- Only an operand with a sign has the program tree of one. -/
theorem ExprTree.expr_primary_ne_unary (t : ExprTree .primary) (sign : Token) (e : Expr) :
    t.expr ≠ .unary sign e := by
  intro h
  cases t <;> cases h

/-- The node of a level determines its operands and its operator. -/
theorem Level.combine_injective {level : Level} {left left' right right' : Expr}
    {operator operator' : Token}
    (h : level.combine left operator right = level.combine left' operator' right') :
    left = left' ∧ operator = operator' ∧ right = right' := by
  cases level <;> cases h <;> exact ⟨rfl, rfl, rfl⟩

/-- **An expression is determined by its tokens and its program tree**: the program tree tells where
the tokens are to be split. -/
theorem ExprTree.eq_of_tokens_of_expr {form : ExprForm} {t t' : ExprTree form}
    (htokens : t.tokens = t'.tokens) (hexpr : t.expr = t'.expr) : t = t' := by
  induction t with
  | assign name equals value ih =>
    cases t' with
    | assign name' equals' value' =>
      rw [tokens, tokens, List.cons.injEq, List.cons.injEq] at htokens
      obtain ⟨hname, hequals, hvalue⟩ := htokens
      rw [expr, expr, Expr.assign.injEq] at hexpr
      rw [Terminal.ext hname, Terminal.ext hequals, ih hvalue hexpr.2]
    | plain e' => exact absurd hexpr.symm (e'.expr_ne_assign (by decide) _ _)
  | plain e ih =>
    cases t' with
    | assign name' equals' value' => exact absurd hexpr (e.expr_ne_assign (by decide) _ _)
    | plain e' => rw [ih htokens hexpr]
  | operand e ih =>
    cases t' with
    | operand e' => rw [ih htokens hexpr]
    | join left' operator' right' =>
      exact absurd hexpr (e.expr_operand_ne_combine operator' _ _)
  | join left operator right ihLeft ihRight =>
    cases t' with
    | operand e' => exact absurd hexpr.symm (e'.expr_operand_ne_combine operator _ _)
    | join left' operator' right' =>
      -- the left operands have the same width, so the tokens are split at the same place
      obtain ⟨hleft, -, hright⟩ := Level.combine_injective hexpr
      have hwidth : left.tokens.length = left'.tokens.length := by
        rw [length_tokens, length_tokens, hleft]
      obtain ⟨hl, hcons⟩ := List.append_inj htokens hwidth
      rw [List.cons.injEq] at hcons
      rw [ihLeft hl hleft, Terminal.ext hcons.1, ihRight hcons.2 hright]
  | signed sign e ih =>
    cases t' with
    | signed sign' e' =>
      rw [tokens, tokens, List.cons.injEq] at htokens
      rw [expr, expr, Expr.unary.injEq] at hexpr
      rw [Terminal.ext htokens.1, ih htokens.2 hexpr.2]
    | unsigned e' => exact absurd hexpr.symm (e'.expr_primary_ne_unary _ _)
  | unsigned e ih =>
    cases t' with
    | signed sign' e' => exact absurd hexpr (e.expr_primary_ne_unary _ _)
    | unsigned e' => rw [ih htokens hexpr]
  | literal t =>
    cases t' with
    | literal t' =>
      rw [tokens, tokens, List.cons.injEq] at htokens
      rw [Terminal.ext htokens.1]
    | reference t' => cases hexpr
    | group opening' inner' closing' => cases hexpr
  | reference t =>
    cases t' with
    | literal t' => cases hexpr
    | reference t' =>
      rw [tokens, tokens, List.cons.injEq] at htokens
      rw [Terminal.ext htokens.1]
    | group opening' inner' closing' => cases hexpr
  | group opening inner closing ih =>
    cases t' with
    | literal t' => cases hexpr
    | reference t' => cases hexpr
    | group opening' inner' closing' =>
      rw [expr, expr, Expr.grouping.injEq] at hexpr
      rw [tokens, tokens, List.cons.injEq] at htokens
      obtain ⟨hinner, hclosing⟩ := List.append_inj' htokens.2 rfl
      rw [List.cons.injEq] at hclosing
      rw [Terminal.ext htokens.1, ih hinner hexpr, Terminal.ext hclosing.1]

/-- An expression at the front of a list of tokens is determined by the list. -/
theorem ExprTree.eq_of_append {e e' : Expression} {rest rest' : List Token}
    (h : e.tokens ++ rest = e'.tokens ++ rest') (hrest : ExprForm.assignment.EndsBefore rest)
    (hrest' : ExprForm.assignment.EndsBefore rest') : e = e' ∧ rest = rest' := by
  -- both are what the rule for expressions reads there
  have hread := (reads_expression _).eq_ok e (Nat.le_refl _) hrest
  have hread' := (reads_expression _).eq_ok e' (Nat.le_refl _) hrest'
  rw [h] at hread
  rw [hread, EStateM.Result.ok.injEq] at hread'
  obtain ⟨hexpr, rfl⟩ := hread'
  exact ⟨eq_of_tokens_of_expr (List.append_cancel_right h) hexpr, rfl⟩

/-- An expression in front of a token that ends it is determined by the tokens. -/
theorem ExprTree.eq_of_append_cons {kind : TokenKind} (hkind : kind ∉ ExprForm.assignment.absorbs)
    {e e' : Expression} {m m' : Mark kind} {rest rest' : List Token}
    (h : e.tokens ++ m.token :: rest = e'.tokens ++ m'.token :: rest') :
    e = e' ∧ m = m' ∧ rest = rest' := by
  have hrest := ExprForm.endsBefore_assignment_cons hkind m rest
  have hrest' := ExprForm.endsBefore_assignment_cons hkind m' rest'
  obtain ⟨he, hcons⟩ := eq_of_append h hrest hrest'
  rw [List.cons.injEq] at hcons
  exact ⟨he, Terminal.ext hcons.1, hcons.2⟩

/-! ## Clauses -/

/-- An expression that may be left out is determined by the tokens if no expression starts with the
token behind it. -/
theorem eq_of_optionalTokens_append_cons {kind : TokenKind}
    (hkind : kind ∉ ExprForm.assignment.absorbs) (hstart : kind ∉ expressionStarts)
    {e e' : Option Expression} {m m' : Mark kind} {rest rest' : List Token}
    (h : optionalTokens e ++ m.token :: rest = optionalTokens e' ++ m'.token :: rest') :
    e = e' ∧ m = m' ∧ rest = rest' := by
  have hsome : ∀ (e : Expression) (m m' : Mark kind) (rest rest' : List Token),
      m.token :: rest ≠ e.tokens ++ m'.token :: rest' := by
    intro e m m' rest rest' heq
    obtain ⟨first, others, htokens, hfirst⟩ := e.exists_tokens_eq_cons
    rw [htokens, List.cons_append, List.cons.injEq] at heq
    rw [← heq.1, m.kind_token] at hfirst
    exact hstart hfirst
  cases e with
  | none =>
    cases e' with
    | none =>
      obtain ⟨hm, hrest⟩ := List.cons.inj h
      exact ⟨rfl, Terminal.ext hm, hrest⟩
    | some e' => exact absurd h (hsome _ _ _ _ _)
  | some e =>
    cases e' with
    | none => exact absurd h.symm (hsome _ _ _ _ _)
    | some e' =>
      obtain ⟨he, hm, hrest⟩ := ExprTree.eq_of_append_cons hkind h
      exact ⟨congrArg some he, hm, hrest⟩

/-- An expression statement is determined by the tokens. -/
theorem ExpressionStatement.eq_of_append {s s' : ExpressionStatement} {rest rest' : List Token}
    (h : s.tokens ++ rest = s'.tokens ++ rest') : s = s' ∧ rest = rest' := by
  obtain ⟨e, closing⟩ := s
  obtain ⟨e', closing'⟩ := s'
  simp only [tokens, List.append_assoc, List.singleton_append] at h
  obtain ⟨rfl, rfl, hrest⟩ := ExprTree.eq_of_append_cons (by decide) h
  exact ⟨rfl, hrest⟩

/-- A variable declaration is determined by the tokens. -/
theorem VariableDeclaration.eq_of_append {d d' : VariableDeclaration} {rest rest' : List Token}
    (h : d.tokens ++ rest = d'.tokens ++ rest') : d = d' ∧ rest = rest' := by
  obtain ⟨word, name, initializer, closing⟩ := d
  obtain ⟨word', name', initializer', closing'⟩ := d'
  simp only [tokens, List.cons_append, List.append_assoc, List.nil_append, List.cons.injEq] at h
  obtain ⟨hword, hname, h⟩ := h
  obtain rfl := Terminal.ext hword
  obtain rfl := Terminal.ext hname
  -- an equals sign or a semicolon behind the name tells the two forms apart
  have hne : ∀ (equals : Mark .equal) (closing : Mark .semicolon),
      equals.token ≠ closing.token := by
    intro equals closing heq
    have hkind := equals.kind_token
    rw [heq, closing.kind_token] at hkind
    cases hkind
  cases initializer with
  | none =>
    cases initializer' with
    | none =>
      obtain ⟨hclosing, hrest⟩ := List.cons.inj h
      obtain rfl := Terminal.ext hclosing
      exact ⟨rfl, hrest⟩
    | some p' => exact absurd (List.cons.inj h).1.symm (hne _ _)
  | some p =>
    cases initializer' with
    | none => exact absurd (List.cons.inj h).1 (hne _ _)
    | some p' =>
      obtain ⟨equals, e⟩ := p
      obtain ⟨equals', e'⟩ := p'
      have hvalue : e.tokens ++ closing.token :: rest = e'.tokens ++ closing'.token :: rest' :=
        (List.cons.inj h).2
      obtain rfl := Terminal.ext (List.cons.inj h).1
      obtain ⟨rfl, rfl, hrest⟩ := ExprTree.eq_of_append_cons (by decide) hvalue
      exact ⟨rfl, hrest⟩

/-- The first token of an expression statement starts no other first clause of a `for` loop. -/
theorem ExpressionStatement.tokens_append_ne_cons (s : ExpressionStatement) {t : Token}
    (ht : t.kind ∉ expressionStarts) (rest rest' : List Token) :
    s.tokens ++ rest ≠ t :: rest' := by
  intro h
  obtain ⟨first, others, htokens, hfirst⟩ := s.inner.exists_tokens_eq_cons
  rw [tokens, htokens, List.cons_append, List.cons_append, List.cons.injEq] at h
  rw [h.1] at hfirst
  exact ht hfirst

/-- The first clause of a `for` loop is determined by the tokens. -/
theorem ForInitializer.eq_of_append {i i' : ForInitializer} {rest rest' : List Token}
    (h : i.tokens ++ rest = i'.tokens ++ rest') : i = i' ∧ rest = rest' := by
  have hne : ∀ (d : VariableDeclaration) (closing : Mark .semicolon) (rest rest' : List Token),
      d.tokens ++ rest ≠ closing.token :: rest' := by
    intro d closing rest rest' heq
    have hkind := d.word.kind_token
    rw [(List.cons.inj heq).1, closing.kind_token] at hkind
    cases hkind
  cases i with
  | declaration d =>
    cases i' with
    | declaration d' =>
      obtain ⟨rfl, hrest⟩ := VariableDeclaration.eq_of_append h
      exact ⟨rfl, hrest⟩
    | expression s' =>
      exact absurd h.symm (s'.tokens_append_ne_cons (by rw [d.word.kind_token]; decide) _ _)
    | absent closing' => exact absurd h (hne _ _ _ _)
  | expression s =>
    cases i' with
    | declaration d' =>
      exact absurd h (s.tokens_append_ne_cons (by rw [d'.word.kind_token]; decide) _ _)
    | expression s' =>
      obtain ⟨rfl, hrest⟩ := ExpressionStatement.eq_of_append h
      exact ⟨rfl, hrest⟩
    | absent closing' =>
      exact absurd h (s.tokens_append_ne_cons (by rw [closing'.kind_token]; decide) _ _)
  | absent closing =>
    cases i' with
    | declaration d' => exact absurd h.symm (hne _ _ _ _)
    | expression s' =>
      exact absurd h.symm (s'.tokens_append_ne_cons (by rw [closing.kind_token]; decide) _ _)
    | absent closing' =>
      obtain ⟨hclosing, hrest⟩ := List.cons.inj h
      obtain rfl := Terminal.ext hclosing
      exact ⟨rfl, hrest⟩

/-- A leading word and a condition in parentheses are determined by the tokens. -/
theorem eq_of_headed_append {kind : TokenKind} {word word' : Mark kind}
    {opening opening' : Mark .leftParen} {condition condition' : Expression}
    {closing closing' : Mark .rightParen} {rest rest' : List Token}
    (h : word.token :: opening.token :: (condition.tokens ++ closing.token :: rest) =
      word'.token :: opening'.token :: (condition'.tokens ++ closing'.token :: rest')) :
    word = word' ∧ opening = opening' ∧ condition = condition' ∧ closing = closing' ∧
      rest = rest' := by
  rw [List.cons.injEq, List.cons.injEq] at h
  obtain ⟨hword, hopening, hcondition⟩ := h
  obtain ⟨rfl, rfl, hrest⟩ := ExprTree.eq_of_append_cons (by decide) hcondition
  exact ⟨Terminal.ext hword, Terminal.ext hopening, rfl, rfl, hrest⟩

/-! ## Statements -/

/-- The word or brace that opens a statement, none for an expression statement. -/
def Statement.leader? : Statement → Option TokenKind
  | .forLoop .. => some (.keyword .forWord)
  | .branch .. | .branchElse .. => some (.keyword .ifWord)
  | .print .. => some (.keyword .printWord)
  | .whileLoop .. => some (.keyword .whileWord)
  | .block .. => some .leftBrace
  | .expression _ => none

/-- What opens a statement is seen from its first token. -/
theorem Statement.exists_leader?_eq (t : Statement) : ∃ first others,
    t.tokens = first :: others ∧
      t.leader? = if first.kind ∈ leaders then some first.kind else none := by
  cases t with
  | expression s =>
    obtain ⟨first, others, htokens, hfirst⟩ := s.inner.exists_tokens_eq_cons
    have hdisjoint : ∀ k ∈ expressionStarts, k ∉ leaders := by decide
    refine ⟨first, others ++ [s.closing.token], ?_, ?_⟩
    · rw [tokens, ExpressionStatement.tokens, htokens, List.cons_append]
    · rw [if_neg (hdisjoint _ hfirst)]
      rfl
  | _ => exact ⟨_, _, rfl, by simp [leaders, leader?]⟩

/-- Statements at the front of the same tokens open alike. -/
theorem Statement.leader?_eq {t t' : Statement} {ts rest rest' : List Token}
    (h : t.Spans ts rest) (h' : t'.Spans ts rest') : t.leader? = t'.leader? := by
  obtain ⟨first, others, htokens, hleader⟩ := t.exists_leader?_eq
  obtain ⟨first', others', htokens', hleader'⟩ := t'.exists_leader?_eq
  have heq := h.tokens_eq.symm.trans h'.tokens_eq
  rw [htokens, htokens', List.cons_append, List.cons_append, List.cons.injEq] at heq
  rw [hleader, hleader', heq.1]

/-- No statement starts like a variable declaration. -/
theorem Statement.tokens_append_ne_binding (s : Statement) (d : VariableDeclaration)
    (rest rest' : List Token) : s.tokens ++ rest ≠ d.tokens ++ rest' := by
  intro h
  obtain ⟨first, others, htokens, hfirst⟩ := s.exists_tokens_eq_cons
  rw [htokens, List.cons_append] at h
  rw [(List.cons.inj h).1, d.word.kind_token] at hfirst
  exact absurd hfirst (by decide)

/-- Declarations do not end where another one starts. -/
theorem Declaration.not_meets_append {ends : List TokenKind}
    (hstart : ∀ k ∈ declarationStarts, k ∉ ends) (d : Declaration) (rest : List Token) :
    ¬ Meets ends (d.tokens ++ rest) := by
  obtain ⟨first, others, htokens, hfirst⟩ := d.exists_tokens_eq_cons
  rw [htokens, List.cons_append, meets_cons]
  exact hstart _ hfirst

/-- No conditional without an `else` has the tokens of one with an `else` in front of it, if the
first branches of the two leave the same tokens: the `else` would be left there. -/
theorem Statement.not_spans_branch_branchElse {word word' : Mark (.keyword .ifWord)}
    {opening opening' : Mark .leftParen} {condition condition' : Expression}
    {closing closing' : Mark .rightParen} {thenBranch thenBranch' elseBranch' : Statement}
    {elseWord' : Mark (.keyword .elseWord)} {ts rest rest' : List Token}
    (hsame : ∀ {ts rest rest' : List Token}, thenBranch.Spans ts rest →
      thenBranch'.Spans ts rest' → rest = rest')
    (h : (Statement.branch word opening condition closing thenBranch).Spans ts rest)
    (h' : (Statement.branchElse word' opening' condition' closing' thenBranch' elseWord'
      elseBranch').Spans ts rest') : False := by
  have heq := h.tokens_eq.symm.trans h'.tokens_eq
  have hstop := h.closed rfl
  obtain ⟨hproper', hopen', -⟩ := h'.proper
  simp only [tokens, List.cons_append, List.append_assoc] at heq
  obtain ⟨-, -, -, -, hthen⟩ := eq_of_headed_append heq
  obtain rfl := hsame ⟨rfl, h.proper, fun _ => hstop⟩
    (spans_of_endsOpen_eq_false hthen hproper' hopen')
  exact not_stops_mark elseWord' _ hstop

/-! ## One derivation at the front of some tokens -/

mutual

/-- **A statement at the front of a list of tokens is determined by the list.** The induction is on
the statement, whose first token tells the form of the other one. -/
theorem Statement.eq_of_spans : ∀ (t : Statement) {t' : Statement} {ts rest rest' : List Token},
    t.Spans ts rest → t'.Spans ts rest' → t = t' ∧ rest = rest'
  | .forLoop word opening initializer condition separator increment closing body, t', _, _, _,
      h, h' => by
    have hleader := Statement.leader?_eq h h'
    cases t' with
    | forLoop word' opening' initializer' condition' separator' increment' closing' body' =>
      have heq := h.tokens_eq.symm.trans h'.tokens_eq
      simp only [Statement.tokens, List.cons_append, List.append_assoc, List.cons.injEq] at heq
      obtain ⟨hword, hopening, hinitializer⟩ := heq
      obtain rfl := Terminal.ext hword
      obtain rfl := Terminal.ext hopening
      obtain ⟨rfl, hcondition⟩ := ForInitializer.eq_of_append hinitializer
      obtain ⟨rfl, rfl, hincrement⟩ :=
        eq_of_optionalTokens_append_cons (by decide) (by decide) hcondition
      obtain ⟨rfl, rfl, hbody⟩ :=
        eq_of_optionalTokens_append_cons (by decide) (by decide) hincrement
      obtain ⟨rfl, hrest⟩ := Statement.eq_of_spans body ⟨rfl, h.proper, h.closed⟩
        ⟨hbody, h'.proper, h'.closed⟩
      exact ⟨rfl, hrest⟩
    -- the other statement opens with another word
    | _ => cases hleader
  | .branch word opening condition closing thenBranch, t', _, _, _, h, h' => by
    have hleader := Statement.leader?_eq h h'
    have hstop := h.closed rfl
    cases t' with
    | branch word' opening' condition' closing' thenBranch' =>
      have heq := h.tokens_eq.symm.trans h'.tokens_eq
      have hstop' := h'.closed rfl
      simp only [Statement.tokens, List.cons_append, List.append_assoc] at heq
      obtain ⟨rfl, rfl, rfl, rfl, hthen⟩ := eq_of_headed_append heq
      obtain ⟨rfl, hrest⟩ := Statement.eq_of_spans thenBranch ⟨rfl, h.proper, fun _ => hstop⟩
        ⟨hthen, h'.proper, fun _ => hstop'⟩
      exact ⟨rfl, hrest⟩
    | branchElse word' opening' condition' closing' thenBranch' elseWord' elseBranch' =>
      exact (Statement.not_spans_branch_branchElse
        (fun hspans hspans' => (Statement.eq_of_spans thenBranch hspans hspans').2) h h').elim
    | _ => cases hleader
  | .branchElse word opening condition closing thenBranch elseWord elseBranch, t', _, _, _,
      h, h' => by
    have hleader := Statement.leader?_eq h h'
    obtain ⟨hproper, hopen, hproperElse⟩ := h.proper
    cases t' with
    | branch word' opening' condition' closing' thenBranch' =>
      exact (Statement.not_spans_branch_branchElse
        (fun hspans hspans' => (Statement.eq_of_spans thenBranch hspans' hspans).2.symm) h' h).elim
    | branchElse word' opening' condition' closing' thenBranch' elseWord' elseBranch' =>
      have heq := h.tokens_eq.symm.trans h'.tokens_eq
      obtain ⟨hproper', hopen', hproperElse'⟩ := h'.proper
      simp only [Statement.tokens, List.cons_append, List.append_assoc] at heq
      obtain ⟨rfl, rfl, rfl, rfl, hthen⟩ := eq_of_headed_append heq
      -- both first branches are closed, so both leave the tokens at their `else`
      obtain ⟨rfl, helse⟩ := Statement.eq_of_spans thenBranch
        (Statement.spans_of_endsOpen_eq_false rfl hproper hopen)
        (Statement.spans_of_endsOpen_eq_false hthen hproper' hopen')
      rw [List.cons.injEq] at helse
      obtain rfl := Terminal.ext helse.1
      obtain ⟨rfl, hrest⟩ := Statement.eq_of_spans elseBranch ⟨rfl, hproperElse, h.closed⟩
        ⟨helse.2, hproperElse', h'.closed⟩
      exact ⟨rfl, hrest⟩
    | _ => cases hleader
  | .print word e closing, t', _, _, _, h, h' => by
    have hleader := Statement.leader?_eq h h'
    cases t' with
    | print word' e' closing' =>
      have heq := h.tokens_eq.symm.trans h'.tokens_eq
      simp only [Statement.tokens, List.cons_append, List.append_assoc, List.nil_append,
        List.cons.injEq] at heq
      obtain ⟨hword, he⟩ := heq
      obtain rfl := Terminal.ext hword
      obtain ⟨rfl, rfl, hrest⟩ := ExprTree.eq_of_append_cons (by decide) he
      exact ⟨rfl, hrest⟩
    | _ => cases hleader
  | .whileLoop word opening condition closing body, t', _, _, _, h, h' => by
    have hleader := Statement.leader?_eq h h'
    cases t' with
    | whileLoop word' opening' condition' closing' body' =>
      have heq := h.tokens_eq.symm.trans h'.tokens_eq
      simp only [Statement.tokens, List.cons_append, List.append_assoc] at heq
      obtain ⟨rfl, rfl, rfl, rfl, hbody⟩ := eq_of_headed_append heq
      obtain ⟨rfl, hrest⟩ := Statement.eq_of_spans body ⟨rfl, h.proper, h.closed⟩
        ⟨hbody, h'.proper, h'.closed⟩
      exact ⟨rfl, hrest⟩
    | _ => cases hleader
  | .block opening body closing, t', _, _, _, h, h' => by
    have hleader := Statement.leader?_eq h h'
    cases t' with
    | block opening' body' closing' =>
      have heq := h.tokens_eq.symm.trans h'.tokens_eq
      simp only [Statement.tokens, List.cons_append, List.append_assoc, List.nil_append,
        List.cons.injEq] at heq
      obtain ⟨hopening, hbody⟩ := heq
      obtain rfl := Terminal.ext hopening
      have hends : ∀ (closing : Mark .rightBrace) rest, Meets blockEnds (closing.token :: rest) :=
        fun closing rest => by simp [blockEnds]
      obtain ⟨rfl, hclosing⟩ := Declaration.eq_of_allTokens_append (by decide) (by decide) body
        h.proper h'.proper (hends _ _) (hends _ _) hbody
      rw [List.cons.injEq] at hclosing
      obtain rfl := Terminal.ext hclosing.1
      exact ⟨rfl, hclosing.2⟩
    | _ => cases hleader
  | .expression s, t', _, _, _, h, h' => by
    have hleader := Statement.leader?_eq h h'
    cases t' with
    | expression s' =>
      obtain ⟨rfl, hrest⟩ :=
        ExpressionStatement.eq_of_append (h.tokens_eq.symm.trans h'.tokens_eq)
      exact ⟨rfl, hrest⟩
    | _ => cases hleader

/-- A declaration at the front of a list of tokens is determined by the list. -/
theorem Declaration.eq_of_spans : ∀ (d : Declaration) {d' : Declaration}
    {ts rest rest' : List Token}, d.Spans ts rest → d'.Spans ts rest' → d = d' ∧ rest = rest'
  | .binding d, .binding d', _, _, _, h, h' => by
    obtain ⟨rfl, hrest⟩ := VariableDeclaration.eq_of_append (h.tokens_eq.symm.trans h'.tokens_eq)
    exact ⟨rfl, hrest⟩
  | .binding d, .statement s', _, _, _, h, h' =>
    absurd (h'.tokens_eq.symm.trans h.tokens_eq) (s'.tokens_append_ne_binding d _ _)
  | .statement s, .binding d', _, _, _, h, h' =>
    absurd (h.tokens_eq.symm.trans h'.tokens_eq) (s.tokens_append_ne_binding d' _ _)
  | .statement s, .statement s', _, _, _, h, h' => by
    obtain ⟨rfl, hrest⟩ := Statement.eq_of_spans s ⟨h.tokens_eq, h.proper, h.closed⟩
      ⟨h'.tokens_eq, h'.proper, h'.closed⟩
    exact ⟨rfl, hrest⟩

/-- Declarations up to an end are determined by the tokens. -/
theorem Declaration.eq_of_allTokens_append {ends : List TokenKind}
    (hstart : ∀ k ∈ declarationStarts, k ∉ ends) (helse : ∀ k ∈ ends, k ∉ [.keyword .elseWord]) :
    ∀ (ds : List Declaration) {ds' : List Declaration} {rest rest' : List Token},
      Declaration.AllProper ds → Declaration.AllProper ds' → Meets ends rest → Meets ends rest' →
        Declaration.allTokens ds ++ rest = Declaration.allTokens ds' ++ rest' →
          ds = ds' ∧ rest = rest'
  | [], [], _, _, _, _, _, _, h => ⟨rfl, h⟩
  | [], d' :: ds', _, _, _, _, hrest, _, h => by
    rw [Declaration.allTokens, List.nil_append, Declaration.allTokens, List.append_assoc] at h
    exact absurd hrest (h ▸ d'.not_meets_append hstart _)
  | d :: ds, [], _, _, _, _, _, hrest', h => by
    rw [Declaration.allTokens, Declaration.allTokens, List.nil_append, List.append_assoc] at h
    exact absurd hrest' (h ▸ d.not_meets_append hstart _)
  | d :: ds, d' :: ds', _, _, hproper, hproper', hrest, hrest', h => by
    rw [Declaration.allTokens, Declaration.allTokens, List.append_assoc, List.append_assoc] at h
    -- what follows the first declarations is another one or the end, but no `else`
    have hstop := stops_allTokens_append (by decide) ds (hrest.stops helse)
    have hstop' := stops_allTokens_append (by decide) ds' (hrest'.stops helse)
    obtain ⟨rfl, htail⟩ := Declaration.eq_of_spans d ⟨rfl, hproper.1, fun _ => hstop⟩
      ⟨h, hproper'.1, fun _ => hstop'⟩
    obtain ⟨rfl, hrest⟩ := Declaration.eq_of_allTokens_append hstart helse ds hproper.2
      hproper'.2 hrest hrest' htail
    exact ⟨rfl, hrest⟩

end

/-- **A program is determined by its tokens.** -/
theorem Program.eq_of_tokens {p p' : Program} (h : p.tokens = p'.tokens) : p = p' := by
  have hend : ∀ t : Mark .endOfInput, Meets [.endOfInput] [t.token] := fun t => t.kind_mem
  let eof : Mark .endOfInput := .ofKind (t := ⟨.endOfInput, "", none, 0⟩) rfl
  -- an end token behind both of them ends their declarations
  have happend : Declaration.allTokens p.declarations ++ [eof.token] =
      Declaration.allTokens p'.declarations ++ [eof.token] := congrArg (· ++ [eof.token]) h
  obtain ⟨hdeclarations, -⟩ := Declaration.eq_of_allTokens_append (by decide) (by decide) _
    p.proper p'.proper (hend eof) (hend eof) happend
  exact Program.ext hdeclarations

end Lox.Surface
