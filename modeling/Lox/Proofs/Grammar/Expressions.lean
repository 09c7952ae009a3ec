import Lox.Proofs.Grammar.Success

/-! # Reading expressions

The rules for expressions succeed exactly on the derivations of their nonterminals. A chain of
operands is read as far as it goes, so what follows an expression must not continue it; which kinds
of tokens would is the set that a nonterminal *absorbs*.

* **`Reads`** — a rule answers the program trees of the derivations of a nonterminal, and nothing
  else;
* **`reads_primary`**, **`reads_unary`**, **`reads_chain`**, **`reads_assignment`** — each rule
  reads its nonterminal if the rules inside it do;
* **`reads_expression`** — hence an expression is read on any number of tokens. -/

namespace Lox.Surface

open Grammar Rule

/-! ## What an expression absorbs -/

/-- The operators of a level and of all tighter ones. -/
def Level.absorbs : Level → List TokenKind
  | factor => factor.operators
  | term => term.operators ++ factor.operators
  | comparison => comparison.operators ++ (term.operators ++ factor.operators)
  | equality =>
    equality.operators ++ (comparison.operators ++ (term.operators ++ factor.operators))
  | logicAnd => logicAnd.operators ++
    (equality.operators ++ (comparison.operators ++ (term.operators ++ factor.operators)))
  | logicOr => logicOr.operators ++ (logicAnd.operators ++
    (equality.operators ++ (comparison.operators ++ (term.operators ++ factor.operators))))

/-- The kinds of tokens that continue a derivation of a nonterminal. -/
def ExprForm.absorbs : ExprForm → List TokenKind
  | assignment => .equal :: Level.logicOr.absorbs
  | joined level => level.absorbs
  | unary | primary => []

/-- No operator belongs to two levels. -/
theorem Level.not_mem_operand_absorbs (level : Level) {kind : TokenKind}
    (h : kind ∈ level.operators) : kind ∉ level.operand.absorbs := by
  have hdisjoint : ∀ k ∈ level.operators, k ∉ level.operand.absorbs := by
    cases level <;> decide
  exact hdisjoint kind h

namespace ExprForm

/-- What follows a derivation does not continue it. Operands that end by themselves need no token
behind them. -/
def EndsBefore (form : ExprForm) (rest : List Token) : Prop :=
  form.absorbs = [] ∨ Stops form.absorbs rest

/-- A chain absorbs the operators of its level and what its operands absorb. -/
theorem absorbs_joined (level : Level) :
    (joined level).absorbs = level.operators ++ level.operand.absorbs := by
  cases level <;> rfl

/-- A chain ends where neither its level nor its operands go on. -/
theorem endsBefore_joined (level : Level) (rest : List Token) :
    (joined level).EndsBefore rest ↔
      Stops level.operators rest ∧ level.operand.EndsBefore rest := by
  -- a chain absorbs at least its own operators, so it never ends by itself
  have hne : (joined level).absorbs ≠ [] := by cases level <;> simp [absorbs, Level.absorbs,
    Level.operators]
  unfold EndsBefore
  rw [or_iff_right hne, absorbs_joined]
  cases rest with
  | nil => simp
  | cons t more =>
    by_cases h : level.operand.absorbs = []
    · simp [h]
    · simp [h]

/-- An expression ends where neither an assignment nor a chain goes on. -/
theorem endsBefore_assignment (rest : List Token) :
    assignment.EndsBefore rest ↔
      Stops [.equal] rest ∧ (joined .logicOr).EndsBefore rest := by
  have hne : (joined .logicOr).absorbs ≠ [] := by
    simp [absorbs, Level.absorbs, Level.operators]
  have hne' : assignment.absorbs ≠ [] := List.cons_ne_nil _ _
  unfold EndsBefore
  rw [or_iff_right hne, or_iff_right hne']
  cases rest with
  | nil => simp
  | cons t more => simp [absorbs]

/-- An operator of a level ends the operand in front of it. -/
theorem endsBefore_operand_cons {level : Level} (operator : Terminal level.operators)
    (rest : List Token) : level.operand.EndsBefore (operator.token :: rest) := by
  exact .inr (level.not_mem_operand_absorbs operator.kind_mem)

/-- A token that no expression absorbs ends every expression in front of it. -/
theorem endsBefore_assignment_cons {kind : TokenKind} (hkind : kind ∉ assignment.absorbs)
    (m : Mark kind) (rest : List Token) : assignment.EndsBefore (m.token :: rest) := by
  refine .inr ?_
  rw [stops_cons, m.kind_token]
  exact hkind

end ExprForm

/-! ## Rules and nonterminals -/

/-- In front of at most `bound` tokens a rule succeeds exactly on the derivations of a nonterminal,
with their program trees. -/
def Reads (form : ExprForm) (bound : Nat) (rule : Rule Expr) : Prop :=
  ∀ ts : List Token, ts.length ≤ bound → ∀ e rest, rule ts = .ok e rest ↔
    ∃ t : ExprTree form, ts = t.tokens ++ rest ∧ t.expr = e ∧ form.EndsBefore rest

/-- A derivation is read back, whatever follows that does not continue it. -/
theorem Reads.eq_ok {form : ExprForm} {bound : Nat} {rule : Rule Expr}
    (h : Reads form bound rule) (t : ExprTree form) {rest : List Token}
    (hlen : (t.tokens ++ rest).length ≤ bound) (hrest : form.EndsBefore rest) :
    rule (t.tokens ++ rest) = .ok t.expr rest :=
  (h _ hlen _ _).2 ⟨t, rfl, rfl, hrest⟩

/-- An expression in front of a token that must follow it. -/
theorem expr_expect_bind_eq_ok_iff {α : Type} {expr : Rule Expr} {bound : Nat}
    {ts rest : List Token} (hexpr : Reads .assignment bound expr) (hts : ts.length ≤ bound)
    {kind : TokenKind} (hend : kind ≠ .endOfInput) (hkind : kind ∉ ExprForm.assignment.absorbs)
    {otherwise : SyntaxErrorKind} {f : Expr → Rule α} {a : α} :
    (do let e ← expr
        let _ ← expect kind otherwise
        f e : Rule α) ts = .ok a rest ↔
      ∃ e : Expression, ∃ m : Mark kind, ∃ more,
        ts = e.tokens ++ m.token :: more ∧ f e.expr more = .ok a rest := by
  rw [bind_eq_ok_iff]
  constructor
  · rintro ⟨e, mid, he, h⟩
    obtain ⟨t, rfl, rfl, -⟩ := (hexpr _ hts _ _).1 he
    rw [expect_bind_eq_ok_iff hend] at h
    obtain ⟨m, more, rfl, h⟩ := h
    exact ⟨t, m, more, rfl, h⟩
  · rintro ⟨t, m, more, rfl, h⟩
    have hbefore := ExprForm.endsBefore_assignment_cons hkind m more
    exact ⟨_, _, hexpr.eq_ok t hts hbefore, (expect_bind_eq_ok_iff hend).2 ⟨m, more, rfl, h⟩⟩

/-! ## Operands -/

/-- A literal is passed and stands for its value. -/
theorem primary_of_mem_literalKinds {inner : Rule Expr} {t : Token} {rest : List Token}
    (h : t.kind ∈ literalKinds) :
    primary inner (t :: rest) = .ok (.literal (literalValue t)) rest := by
  simp only [literalKinds, List.mem_cons, List.not_mem_nil, or_false] at h
  unfold primary literalValue
  rcases h with h | h | h | h | h <;>
    simp only [peek_bind_cons, h] <;>
    exact skip_bind_cons (by simp [h])

/-- A name is passed and refers to itself. -/
theorem primary_of_identifier {inner : Rule Expr} {t : Token} {rest : List Token}
    (h : t.kind = .identifier) : primary inner (t :: rest) = .ok (.reference t) rest := by
  unfold primary
  simp only [peek_bind_cons, h]
  exact skip_bind_cons (by simp [h])

/-- Behind an opening parenthesis an expression and the closing one must follow. -/
theorem primary_of_leftParen {inner : Rule Expr} {t : Token} {rest : List Token}
    (h : t.kind = .leftParen) :
    primary inner (t :: rest) =
      (do let e ← inner
          let _ ← expect .rightParen .unclosedGroup
          return .grouping e : Rule Expr) rest := by
  unfold primary
  simp only [peek_bind_cons, h]
  exact skip_bind_cons (by simp [h])

/-- The kinds of tokens that an operand without a sign starts with. -/
def primaryKinds : List TokenKind := .leftParen :: .identifier :: literalKinds

/-- Any other token is no operand. -/
theorem primary_of_not_mem {inner : Rule Expr} {t : Token} {rest : List Token}
    (h : t.kind ∉ primaryKinds) :
    primary inner (t :: rest) = reject t .missingExpression (t :: rest) := by
  simp only [primaryKinds, literalKinds, List.mem_cons, List.not_mem_nil, or_false, not_or] at h
  obtain ⟨h₁, h₂, h₃, h₄, h₅, h₆, h₇⟩ := h
  unfold primary
  simp only [peek_bind_cons]

/-- Literals, names and parentheses are read if the expression inside parentheses is. -/
theorem reads_primary {inner : Rule Expr} {bound : Nat} (hinner : Reads .assignment bound inner) :
    Reads .primary (bound + 1) (primary inner) := by
  intro ts hts e rest
  constructor
  · -- a result: the first token says which derivation it comes from
    intro h
    cases ts with
    | nil => cases h
    | cons t more =>
      have hmore : more.length ≤ bound := by simpa using hts
      by_cases hmem : t.kind ∈ primaryKinds
      · rw [primaryKinds, List.mem_cons, List.mem_cons] at hmem
        rcases hmem with hkind | hkind | hkind
        · rw [primary_of_leftParen hkind,
            expr_expect_bind_eq_ok_iff hinner hmore (by decide) (by decide)] at h
          obtain ⟨i, closing, more', rfl, h⟩ := h
          rw [pure_eq_ok_iff] at h
          obtain ⟨rfl, rfl⟩ := h
          exact ⟨.group (.ofKind hkind) i closing, by simp [ExprTree.tokens], rfl, .inl rfl⟩
        · rw [primary_of_identifier hkind] at h
          cases h
          exact ⟨.reference (.ofKind hkind), rfl, rfl, .inl rfl⟩
        · rw [primary_of_mem_literalKinds hkind] at h
          cases h
          exact ⟨.literal ⟨t, hkind⟩, rfl, rfl, .inl rfl⟩
      · rw [primary_of_not_mem hmem] at h
        exact absurd h (reject_ne_ok _ _ _)
  · -- a derivation: its first token leads the rule to the same case
    rintro ⟨t, rfl, rfl, -⟩
    cases t with
    | literal t => exact primary_of_mem_literalKinds t.kind_mem
    | reference t => exact primary_of_identifier t.kind_token
    | group opening i closing =>
      have hlen : (i.tokens ++ closing.token :: rest).length ≤ bound := by
        simp [ExprTree.tokens] at hts ⊢
        omega
      simp only [ExprTree.tokens, List.cons_append, List.append_assoc, List.nil_append]
      rw [primary_of_leftParen opening.kind_token,
        expr_expect_bind_eq_ok_iff hinner hlen (by decide) (by decide)]
      exact ⟨i, closing, rest, rfl, by simp [ExprTree.expr]⟩

/-! ## Signs -/

/-- The signs are the kinds that may stand in front of an operand. -/
theorem isSign_iff (k : TokenKind) : isSign k = true ↔ k ∈ signKinds := by
  cases k <;> simp [isSign, signKinds]

/-- A sign applies to the operand behind it. -/
theorem unary_of_mem_signKinds {inner : Rule Expr} {t : Token} {rest : List Token}
    (h : t.kind ∈ signKinds) : unary inner (t :: rest) = (.unary t <$> unary inner) rest := by
  have hsign : isSign t.kind = true := (isSign_iff _).2 h
  show EStateM.bind _ _ _ = EStateM.map _ (EStateM.bind _ _) _
  simp only [EStateM.bind, EStateM.map, List.takeWhile_cons, List.dropWhile_cons, hsign,
    if_true]
  cases primary inner (rest.dropWhile fun t => isSign t.kind) <;> rfl

/-- Without a sign in front there is only the operand. -/
theorem unary_of_not_sign {inner : Rule Expr} {ts : List Token}
    (h : ∀ t ∈ ts.head?, t.kind ∉ signKinds) : unary inner ts = primary inner ts := by
  have hdrop : (ts.dropWhile fun t => isSign t.kind) = ts := by
    cases ts with
    | nil => rfl
    | cons t rest =>
      have hno : ¬ isSign t.kind = true := fun hs => h t rfl ((isSign_iff _).1 hs)
      rw [List.dropWhile_cons, if_neg hno]
  have htake : (ts.takeWhile fun t => isSign t.kind) = [] := by
    cases ts with
    | nil => rfl
    | cons t rest =>
      have hno : ¬ isSign t.kind = true := fun hs => h t rfl ((isSign_iff _).1 hs)
      rw [List.takeWhile_cons, if_neg hno]
  show EStateM.bind _ _ _ = _
  simp only [EStateM.bind, hdrop, htake, List.foldr_nil]
  cases primary inner ts <;> rfl

/-- Operands with signs are read if the expression inside parentheses is. -/
theorem reads_unary {inner : Rule Expr} {bound : Nat} (hinner : Reads .assignment bound inner) :
    Reads .unary (bound + 1) (unary inner) := by
  have hprimary := reads_primary hinner
  intro ts
  -- signs are taken off one by one, so the induction is on the tokens
  induction ts with
  | nil =>
    intro hts e rest
    rw [unary_of_not_sign (by simp), hprimary [] hts]
    constructor
    · rintro ⟨t, ht, rfl, -⟩
      exact ⟨.unsigned t, ht, rfl, .inl rfl⟩
    · rintro ⟨t, ht, rfl, -⟩
      cases t with
      | signed sign e => cases ht
      | unsigned e => exact ⟨e, ht, rfl, .inl rfl⟩
  | cons first more ih =>
    intro hts e rest
    by_cases hsign : first.kind ∈ signKinds
    · rw [unary_of_mem_signKinds hsign, map_eq_ok_iff]
      have hmore : more.length ≤ bound + 1 := by
        rw [List.length_cons] at hts
        omega
      constructor
      · rintro ⟨e', he', rfl⟩
        obtain ⟨t, rfl, rfl, -⟩ := (ih hmore _ _).1 he'
        exact ⟨.signed ⟨first, hsign⟩ t, rfl, rfl, .inl rfl⟩
      · rintro ⟨t, ht, rfl, -⟩
        cases t with
        | signed sign e =>
          cases ht
          exact ⟨e.expr, (ih hmore _ _).2 ⟨e, rfl, rfl, .inl rfl⟩, rfl⟩
        | unsigned e =>
          -- no operand without a sign starts with one
          have hread := (hprimary _ hts _ _).2 ⟨e, ht, rfl, .inl rfl⟩
          have hno : first.kind ∉ primaryKinds := by
            intro hmem
            have hdisjoint : ∀ k ∈ signKinds, k ∉ primaryKinds := by decide
            exact hdisjoint _ hsign hmem
          rw [primary_of_not_mem hno] at hread
          exact absurd hread (reject_ne_ok _ _ _)
    · rw [unary_of_not_sign (by simpa using hsign), hprimary _ hts]
      constructor
      · rintro ⟨t, ht, rfl, -⟩
        exact ⟨.unsigned t, ht, rfl, .inl rfl⟩
      · rintro ⟨t, ht, rfl, -⟩
        cases t with
        | signed sign e =>
          cases ht
          exact absurd sign.kind_mem hsign
        | unsigned e => exact ⟨e, ht, rfl, .inl rfl⟩

/-! ## Chains -/

section Chains

variable {level : Level} {isOperator : TokenKind → Bool} {operand : Rule Expr} {bound : Nat}

/-- A chain stops in front of a token that is no operator of its level. -/
theorem chainFrom_of_stops (hop : ∀ k, isOperator k = true ↔ k ∈ level.operators) {n : Nat}
    {left : Expr} {ts : List Token} (hstop : Stops level.operators ts) :
    chainFrom level.combine isOperator operand (n + 1) left ts = .ok left ts := by
  unfold chainFrom
  rw [accept_bind_eq_ok_iff hop (by cases level <;> decide)]
  exact .inr ⟨hstop, rfl⟩

/-- Behind an operator of its level a chain goes on with what was read so far as its left
operand. -/
theorem chainFrom_of_operator (hop : ∀ k, isOperator k = true ↔ k ∈ level.operators) {n : Nat}
    {left right e : Expr} {operator : Terminal level.operators} {ts mid rest : List Token}
    (hright : operand ts = .ok right mid)
    (h : chainFrom level.combine isOperator operand n (level.combine left operator.token right) mid
      = .ok e rest) :
    chainFrom level.combine isOperator operand (n + 1) left (operator.token :: ts)
      = .ok e rest := by
  unfold chainFrom
  rw [accept_bind_eq_ok_iff hop (by cases level <;> decide)]
  refine .inl ⟨operator, ts, rfl, ?_⟩
  exact bind_eq_ok_iff.2 ⟨right, mid, hright, h⟩

/-- What is read behind a chain makes a longer chain of it. -/
theorem exists_of_chainFrom_eq_ok (hop : ∀ k, isOperator k = true ↔ k ∈ level.operators)
    (hoperand : Reads level.operand bound operand) {n : Nat}
    (left : ExprTree (.joined level)) {ts rest : List Token} {e : Expr} (hts : ts.length ≤ bound)
    (hend : level.operand.EndsBefore ts)
    (h : chainFrom level.combine isOperator operand n left.expr ts = .ok e rest) :
    ∃ t : ExprTree (.joined level), left.tokens ++ ts = t.tokens ++ rest ∧ t.expr = e ∧
      (ExprForm.joined level).EndsBefore rest := by
  -- `left` is what was read so far; every round adds an operand to it
  induction n generalizing left ts with
  | zero => exact absurd h (throw_ne_ok _ _)
  | succ n ih =>
    unfold chainFrom at h
    rw [accept_bind_eq_ok_iff hop (by cases level <;> decide)] at h
    rcases h with ⟨operator, more, rfl, h⟩ | ⟨hstop, h⟩
    · have hmore : more.length ≤ bound := by
        rw [List.length_cons] at hts
        omega
      obtain ⟨e', mid, he', h⟩ := bind_eq_ok_iff.1 h
      obtain ⟨right, rfl, rfl, hend'⟩ := (hoperand _ hmore _ _).1 he'
      have hmid : mid.length ≤ bound := Nat.le_trans (by simp) hmore
      obtain ⟨t, ht, rfl, hrest⟩ := ih (.join left operator right) hmid hend' h
      exact ⟨t, by simpa [ExprTree.tokens] using ht, rfl, hrest⟩
    · -- no operator follows: what was read so far is the whole chain
      rw [pure_eq_ok_iff] at h
      obtain ⟨rfl, rfl⟩ := h
      exact ⟨left, rfl, rfl, (ExprForm.endsBefore_joined _ _).2 ⟨hstop, hend⟩⟩

/-- A chain reads a derivation and then goes on behind it, with rounds enough for what follows. -/
theorem exists_chain_append_eq (hop : ∀ k, isOperator k = true ↔ k ∈ level.operators)
    (hoperand : Reads level.operand bound operand) {n : Nat} :
    ∀ (t : ExprTree (.joined level)) {rest : List Token}, level.operand.EndsBefore rest →
      (t.tokens ++ rest).length ≤ bound → (t.tokens ++ rest).length ≤ n →
      ∃ m, rest.length ≤ m ∧ ∀ e final,
        chainFrom level.combine isOperator operand m t.expr rest = .ok e final →
          chain level.combine isOperator operand n (t.tokens ++ rest) = .ok e final
  | .operand first, rest, hend, hbound, hn => by
    refine ⟨n, Nat.le_trans (by simp) hn, fun e final h => ?_⟩
    exact bind_eq_ok_iff.2 ⟨_, _, hoperand.eq_ok first hbound hend, h⟩
  | .join left operator right, rest, hend, hbound, hn => by
    -- the chain on the left is read first; the operator behind it ends its last operand
    have hassoc : (ExprTree.join left operator right).tokens ++ rest =
        left.tokens ++ operator.token :: (right.tokens ++ rest) := by simp [ExprTree.tokens]
    rw [hassoc] at hbound hn ⊢
    obtain ⟨m, hm, hchain⟩ := exists_chain_append_eq hop hoperand left
      (ExprForm.endsBefore_operand_cons operator _) hbound hn
    have hright : (right.tokens ++ rest).length ≤ bound := by
      simp only [List.length_append, List.length_cons] at hbound ⊢
      omega
    -- the operator is still to be read, so a round is left for it
    cases m with
    | zero => simp at hm
    | succ m =>
      refine ⟨m, ?_, fun e final h => hchain _ _ ?_⟩
      · simp only [List.length_append, List.length_cons] at hm
        omega
      · exact chainFrom_of_operator hop (hoperand.eq_ok right hright hend) h

/-- **Chains are read if their operands are.** -/
theorem reads_chain (level : Level) (hop : ∀ k, isOperator k = true ↔ k ∈ level.operators)
    (hoperand : Reads level.operand bound operand) :
    Reads (.joined level) bound (chain level.combine isOperator operand bound) := by
  intro ts hts e rest
  constructor
  · intro h
    obtain ⟨e', mid, he', h⟩ := bind_eq_ok_iff.1 h
    obtain ⟨first, rfl, rfl, hend⟩ := (hoperand _ hts _ _).1 he'
    have hmid : mid.length ≤ bound := Nat.le_trans (by simp) hts
    exact exists_of_chainFrom_eq_ok hop hoperand (.operand first) hmid hend h
  · rintro ⟨t, rfl, rfl, hend⟩
    obtain ⟨hstop, hend⟩ := (ExprForm.endsBefore_joined _ _).1 hend
    obtain ⟨m, hm, hchain⟩ := exists_chain_append_eq hop hoperand t hend hts hts
    refine hchain _ _ ?_
    -- what stops the chain is a token, so a round is left to look at it
    cases m with
    | zero =>
      rw [List.length_eq_zero_iff.1 (Nat.le_zero.1 hm)] at hstop
      exact hstop.elim
    | succ m => exact chainFrom_of_stops hop hstop

end Chains

/-! ## Assignments and whole expressions -/

/-- An operand without a sign as a chain of one operand, at any level. -/
def ExprTree.lift (e : ExprTree .primary) : (level : Level) → ExprTree (.joined level)
  | .factor => .operand (.unsigned e)
  | .term => .operand (.operand (.unsigned e))
  | .comparison => .operand (.operand (.operand (.unsigned e)))
  | .equality => .operand (.operand (.operand (.operand (.unsigned e))))
  | .logicAnd => .operand (.operand (.operand (.operand (.operand (.unsigned e)))))
  | .logicOr => .operand (.operand (.operand (.operand (.operand (.operand (.unsigned e))))))

@[simp] theorem ExprTree.expr_lift (e : ExprTree .primary) (level : Level) :
    (e.lift level).expr = e.expr := by cases level <;> rfl

/-- Only a name alone stands for a reference. -/
theorem ExprTree.tokens_of_expr_eq_reference {form : ExprForm} {t : ExprTree form} {name : Token}
    (h : t.expr = .reference name) : t.tokens = [name] ∧ name.kind = .identifier := by
  induction t with
  | assign => cases h
  | plain e ih => exact ih h
  | operand e ih => exact ih h
  | @join level => cases level <;> cases h
  | signed => cases h
  | unsigned e ih => exact ih h
  | literal => cases h
  | reference t =>
    cases h
    exact ⟨rfl, t.kind_token⟩
  | group => cases h

/-- **Chains of operands at all levels are read** if the expression inside parentheses is. -/
theorem reads_logicOr {inner : Rule Expr} {bound : Nat} (hinner : Reads .assignment bound inner) :
    Reads (.joined .logicOr) (bound + 1) (logicOr inner (bound + 1)) := by
  have hfactor : Reads (.joined .factor) (bound + 1) (factor inner (bound + 1)) :=
    reads_chain .factor (by intro k; cases k <;> simp [isFactorOperator, Level.operators])
      (reads_unary hinner)
  have hterm : Reads (.joined .term) (bound + 1) (term inner (bound + 1)) :=
    reads_chain .term (by intro k; cases k <;> simp [isTermOperator, Level.operators])
      hfactor
  have hcomparison : Reads (.joined .comparison) (bound + 1) (comparison inner (bound + 1)) :=
    reads_chain .comparison
      (by intro k; cases k <;> simp [isComparisonOperator, Level.operators]) hterm
  have hequality : Reads (.joined .equality) (bound + 1) (equality inner (bound + 1)) :=
    reads_chain .equality
      (by intro k; cases k <;> simp [isEqualityOperator, Level.operators]) hcomparison
  have hand : Reads (.joined .logicAnd) (bound + 1) (logicAnd inner (bound + 1)) :=
    reads_chain .logicAnd (by simp [Level.operators]) hequality
  exact reads_chain .logicOr (by simp [Level.operators]) hand

/-- **Assignments are read** if the expressions inside them are: a name in front of an equals sign
is a chain of its own, and nothing else may stand there. -/
theorem reads_assignment {inner : Rule Expr} {bound : Nat}
    (hinner : Reads .assignment bound inner) :
    Reads .assignment (bound + 1) (assignment inner (bound + 1)) := by
  have hor := reads_logicOr hinner
  intro ts hts e rest
  unfold assignment
  rw [bind_eq_ok_iff]
  constructor
  · rintro ⟨target, mid, htarget, h⟩
    obtain ⟨t, rfl, rfl, hend⟩ := (hor _ hts _ _).1 htarget
    rw [accept_mark_bind_eq_ok_iff (by decide)] at h
    rcases h with ⟨equals, more, rfl, h⟩ | ⟨hstop, h⟩
    · -- behind an equals sign: what is in front of it must be a name alone
      cases hname : t.expr with
      | reference name =>
        rw [hname] at h
        obtain ⟨htokens, hkind⟩ := ExprTree.tokens_of_expr_eq_reference hname
        rw [htokens] at hts ⊢
        have hmore : more.length ≤ bound := by
          simp only [List.length_append, List.length_cons] at hts
          omega
        obtain ⟨value, final, hvalue, h⟩ := bind_eq_ok_iff.1 h
        obtain ⟨v, rfl, rfl, hrest⟩ := (hinner _ hmore _ _).1 hvalue
        rw [pure_eq_ok_iff] at h
        obtain ⟨rfl, rfl⟩ := h
        exact ⟨.assign (.ofKind hkind) equals v, rfl, rfl, hrest⟩
      | _ =>
        rw [hname] at h
        exact absurd h (reject_ne_ok _ _ _)
    · rw [pure_eq_ok_iff] at h
      obtain ⟨rfl, rfl⟩ := h
      exact ⟨.plain t, rfl, rfl, (ExprForm.endsBefore_assignment _).2 ⟨hstop, hend⟩⟩
  · rintro ⟨t, rfl, rfl, hend⟩
    cases t with
    | assign name equals value =>
      have hmore : (value.tokens ++ rest).length ≤ bound := by
        simp only [ExprTree.tokens, List.length_append, List.length_cons] at hts ⊢
        omega
      -- the name in front of the equals sign is read as a chain of one operand
      have hname : (ExprForm.joined .logicOr).EndsBefore
          (equals.token :: (value.tokens ++ rest)) := by
        refine .inr ?_
        rw [stops_cons, equals.kind_token]
        decide
      refine ⟨_, _, hor.eq_ok ((ExprTree.reference name).lift .logicOr) hts hname, ?_⟩
      rw [accept_mark_bind_eq_ok_iff (by decide)]
      refine .inl ⟨equals, _, rfl, ?_⟩
      rw [ExprTree.expr_lift]
      exact bind_eq_ok_iff.2 ⟨_, _, hinner.eq_ok value hmore hend, rfl⟩
    | plain t =>
      obtain ⟨hstop, hend⟩ := (ExprForm.endsBefore_assignment _).1 hend
      refine ⟨_, _, hor.eq_ok t hts hend, ?_⟩
      rw [accept_mark_bind_eq_ok_iff (by decide)]
      exact .inr ⟨hstop, rfl⟩

/-- **Expressions are read**, whatever tokens are left. -/
theorem reads_expression (bound : Nat) : Reads .assignment bound (expression bound) := by
  induction bound with
  | zero =>
    intro ts hts e rest
    -- without tokens there is neither a result nor a derivation
    have hnil : ts = [] := List.length_eq_zero_iff.1 (Nat.le_zero.1 hts)
    subst hnil
    constructor
    · intro h
      exact absurd h (throw_ne_ok _ _)
    · rintro ⟨t, ht, -, hend⟩
      obtain ⟨-, rfl⟩ := List.append_eq_nil_iff.1 ht.symm
      exact ((ExprForm.endsBefore_assignment _).1 hend).1.elim
  | succ bound ih => exact reads_assignment ih

end Lox.Surface
