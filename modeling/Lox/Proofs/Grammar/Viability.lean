import Lox.Proofs.Grammar.Lookahead
import Lox.Proofs.Grammar.Programs

/-! # What was read before an error

The tokens that a rule has passed when it is rejected are the beginning of some derivation: whatever
has been read can be completed, and the token blamed is where that ends. At the same time each rule
looks no further than to the token it stops at.

* **`Viable`** — tokens that begin a derivation of a nonterminal;
* **`ExprFollows`**, **`StatementFollows`**, **`DeclarationFollows`** — a rule reads the derivations
  of a nonterminal, is rejected behind a beginning of one, and looks no further than it goes;
* **`follows_expression`**, **`follows_statement`**, **`follows_declaration`**,
  **`follows_program`** — the rules of the grammar do. -/

namespace Lox.Surface

open Grammar Rule

variable {f : Int → Int} {α β : Type} {m : α → β} {L P : List Token → Prop} {n room : Nat}

/-! ## Some derivation of everything -/

instance {kind : TokenKind} : Inhabited (Mark kind) := ⟨.ofKind (t := ⟨kind, "", none, 0⟩) rfl⟩

/-- The word `nil` is an operand. -/
instance : Inhabited (ExprTree .primary) :=
  ⟨.literal ⟨⟨.keyword .nilWord, "nil", none, 0⟩, by decide⟩⟩

instance {level : Level} : Inhabited (ExprTree (.joined level)) :=
  ⟨(default : ExprTree .primary).lift level⟩

instance : Inhabited Expression := ⟨.plain default⟩

instance : Inhabited ExpressionStatement := ⟨⟨default, default⟩⟩

instance : Inhabited Statement := ⟨.expression default⟩

/-! ## Expressions -/

/-- Tokens that begin a derivation of a nonterminal. -/
def Viable (form : ExprForm) (front : List Token) : Prop :=
  ∃ t : ExprTree form, front <+: t.tokens

/-- In front of at most `n` tokens a rule reads the derivations of a nonterminal, is rejected behind
a beginning of one, and answers like another rule as long as it stops in what they share. -/
structure ExprFollows (f : Int → Int) (form : ExprForm) (n room : Nat) (x x' : Rule Expr) :
    Prop where
  reads : Reads form n x
  follows : Follows f room (fun ts => ts.length ≤ n) (Viable form) (Expr.moved f) x x'

/-- There may be less room. -/
theorem ExprFollows.mono {form : ExprForm} {x x' : Rule Expr} {n' room' : Nat}
    (h : ExprFollows f form n room x x') (hn : n' ≤ n) (hroom : room' ≤ room) :
    ExprFollows f form n' room' x x' where
  reads := fun ts hts => h.reads ts (Nat.le_trans hts hn)
  follows := h.follows.mono hroom (fun _ hts => Nat.le_trans hts hn) fun _ _ _ => id

section Expressions

variable {form : ExprForm} {x x' inner inner' operand operand' : Rule Expr}

/-- An expression, and what is done behind it. -/
theorem ExprFollows.bind {k : Expr → Rule α} {k' : Expr → Rule β}
    (hx : ExprFollows f form n room x x') (hL : ∀ ts, L ts → ts.length ≤ n)
    (hP : ∀ t : ExprTree form, ∀ front, front <+: t.tokens → P front)
    (hk : ∀ t : ExprTree form, Follows f (room - t.tokens.length)
      (fun mid => L (t.tokens ++ mid) ∧ form.EndsBefore mid) (fun more => P (t.tokens ++ more)) m
      (k t.expr) (k' (t.expr.moved f))) :
    Follows f room L P m (x >>= k) (x' >>= k') := by
  refine follows_bind (hx.follows.mono (Nat.le_refl _) hL ?_) fun a front => ?_
  · rintro _ _ front ⟨t, ht⟩
    exact hP t front ht
  · rintro seen back back' ⟨hts, hok⟩ hlen
    -- what was read is a derivation, and its tokens are those passed
    obtain ⟨t, htokens, rfl, hend⟩ := (hx.reads _ (hL _ hts) _ _).1 hok
    obtain rfl := List.append_cancel_right htokens
    exact hk t seen back back' ⟨hts, hend⟩ hlen

/-- Literals, names and parentheses. -/
theorem follows_primary (hinner : ExprFollows f .assignment n room inner inner') :
    ExprFollows f .primary (n + 1) (room + 1) (primary inner) (primary inner') := by
  refine ⟨reads_primary hinner.reads, follows_of_opens rfl fun t rest hts => ?_⟩
  by_cases hmem : t.kind ∈ primaryKinds
  · rw [primaryKinds, List.mem_cons, List.mem_cons] at hmem
    rcases hmem with hparen | hname | hliteral
    · refine .passes (fun _ => primary_of_leftParen hparen) (fun _ => primary_of_leftParen hparen)
        ?_
      refine hinner.bind (fun ts hts => Nat.le_of_succ_le_succ hts) (fun e front hfront => ?_)
        fun e => ?_
      · exact ⟨.group (.ofKind hparen) e default,
          List.cons_prefix_cons.2 ⟨rfl, hfront.trans (List.prefix_append _ _)⟩⟩
      · refine follows_expect_bind (by decide) (by decide) (fun _ _ => ?_)
          fun _ => follows_pure rfl
        exact ⟨.group (.ofKind hparen) e default, by simp [ExprTree.tokens]⟩
    · exact .passes (y := pure (.reference t)) (z := pure (.reference (t.moved f)))
        (fun _ => primary_of_identifier hname) (fun _ => primary_of_identifier hname)
        (follows_pure rfl)
    · exact .passes (y := pure (.literal (literalValue t))) (z := pure (.literal (literalValue t)))
        (fun _ => primary_of_mem_literalKinds hliteral)
        (fun _ => primary_of_mem_literalKinds (t := t.moved f) hliteral) (follows_pure rfl)
  · exact .blames _ (fun _ => primary_of_not_mem hmem) (fun _ => primary_of_not_mem hmem)
      ⟨default, List.nil_prefix⟩

/-- Operands with signs. -/
theorem follows_unary (hinner : ExprFollows f .assignment n room inner inner') :
    ExprFollows f .unary (n + 1) (room + 1) (unary inner) (unary inner') := by
  refine ⟨reads_unary hinner.reads, ?_⟩
  have hprimary := (follows_primary hinner).follows
  -- each sign is a token, so the induction is on how many tokens may be left
  have hsigned : ∀ k ≤ n + 1, Follows f (room + 1) (fun ts => ts.length ≤ k) (Viable .unary)
      (Expr.moved f) (unary inner) (unary inner') := by
    intro k hk
    induction k with
    | zero =>
      refine follows_of_opens rfl fun t rest hts => ?_
      exact absurd hts (Nat.not_succ_le_zero _)
    | succ k ih =>
      refine follows_of_opens rfl fun t rest hts => ?_
      by_cases hsign : t.kind ∈ signKinds
      · refine .passes (fun _ => unary_of_mem_signKinds hsign)
          (fun _ => unary_of_mem_signKinds (t := t.moved f) hsign) ?_
        have hmore : Follows f (room + 1) (fun ts => ts.length ≤ k) (Viable .unary) (Expr.moved f)
            (.unary t <$> unary inner) (.unary (t.moved f) <$> unary inner') :=
          follows_map (ih (Nat.le_of_succ_le hk)) fun _ => rfl
        refine hmore.mono (Nat.sub_le _ _) (fun _ => Nat.le_of_succ_le_succ) ?_
        rintro _ _ front ⟨e, he⟩
        exact ⟨.signed ⟨t, hsign⟩ e, List.cons_prefix_cons.2 ⟨rfl, he⟩⟩
      · refine .looks (fun _ => unary_of_not_sign (by simpa using hsign))
          (fun _ => unary_of_not_sign (by simpa using hsign)) ?_
        refine hprimary.mono (Nat.le_refl _) (fun ts hts => Nat.le_trans hts.1 hk) ?_
        rintro _ _ front ⟨e, he⟩
        exact ⟨.unsigned e, he⟩
  exact hsigned (n + 1) (Nat.le_refl _)

/-- A chain on other lines. -/
theorem Level.moved_combine (level : Level) (left right : Expr) (operator : Token) :
    (level.combine left operator right).moved f =
      level.combine (left.moved f) (operator.moved f) (right.moved f) := by
  cases level <;> rfl

section Chains

variable {level : Level} {isOperator : TokenKind → Bool}

/-- One more operand of a chain. -/
theorem follows_chainFrom_succ (hop : ∀ k, isOperator k = true ↔ k ∈ level.operators)
    (hoperand : ExprFollows f level.operand n room operand operand') {rounds room' : Nat}
    (rounds' : Nat) (hroom : room' ≤ room)
    (hnext : ∀ left : ExprTree (.joined level), Follows f (room' - 1) (fun ts => ts.length ≤ n)
      (fun front => Viable (.joined level) (left.tokens ++ front)) (Expr.moved f)
      (chainFrom level.combine isOperator operand rounds left.expr)
      (chainFrom level.combine isOperator operand' rounds' (left.expr.moved f)))
    (left : ExprTree (.joined level)) :
    Follows f room' (fun ts => ts.length ≤ n)
      (fun front => Viable (.joined level) (left.tokens ++ front)) (Expr.moved f)
      (chainFrom level.combine isOperator operand (rounds + 1) left.expr)
      (chainFrom level.combine isOperator operand' (rounds' + 1) (left.expr.moved f)) := by
  have hend : TokenKind.endOfInput ∉ level.operators := by cases level <;> decide
  refine follows_of_opens rfl fun t rest hts => ?_
  by_cases h : (t.kind ≠ .endOfInput && isOperator t.kind) = true
  · have hkind : t.kind ∈ level.operators := (hop _).1 (Bool.and_eq_true _ _ ▸ h).2
    let operator : Terminal level.operators := ⟨t, hkind⟩
    refine .passes (accept_bind_cons_of_wanted h) (accept_bind_cons_of_wanted h) ?_
    refine (hoperand.mono (Nat.le_refl _) (by omega)).bind
      (fun ts hts => Nat.le_of_succ_le hts) (fun right front hfront => ?_) fun right => ?_
    · refine ⟨.join left operator right, ?_⟩
      exact (List.prefix_append_right_inj _).2 (List.cons_prefix_cons.2 ⟨rfl, hfront⟩)
    · -- the chain so far is the left operand of what follows
      have hchain := hnext (.join left operator right)
      rw [show (ExprTree.join left operator right).expr.moved f =
        level.combine (left.expr.moved f) (t.moved f) (right.expr.moved f) from
          level.moved_combine _ _ _] at hchain
      refine hchain.mono (Nat.sub_le _ _) (fun ts hts => ?_) fun _ _ front hfront => ?_
      · have hlen := hts.1
        simp only [List.length_cons, List.length_append] at hlen
        omega
      · simpa [ExprTree.tokens, operator] using hfront
  · refine .looks (accept_bind_cons_of_not_wanted h) (accept_bind_cons_of_not_wanted h) ?_
    exact follows_pure rfl

/-- The operands of a chain behind its first one. -/
theorem follows_chainFrom (hop : ∀ k, isOperator k = true ↔ k ∈ level.operators)
    (hoperand : ExprFollows f level.operand n room operand operand') {rounds rounds' room' : Nat}
    (hroom : room' ≤ room) (hrounds : room' ≤ rounds') (left : ExprTree (.joined level)) :
    Follows f room' (fun ts => ts.length ≤ n)
      (fun front => Viable (.joined level) (left.tokens ++ front)) (Expr.moved f)
      (chainFrom level.combine isOperator operand rounds left.expr)
      (chainFrom level.combine isOperator operand' rounds' (left.expr.moved f)) := by
  induction rounds generalizing rounds' room' left with
  | zero => exact follows_endOfTokens
  | succ rounds ih =>
    cases rounds' with
    | zero =>
      obtain rfl : room' = 0 := Nat.le_zero.1 hrounds
      exact (follows_chainFrom_succ hop hoperand 0 hroom
        (fun left => ih hroom hrounds left) left).of_no_room
    | succ rounds' =>
      exact follows_chainFrom_succ hop hoperand rounds' hroom
        (fun left => ih (by omega) (by omega) left) left

variable (level) in
/-- Operands joined by operators. -/
theorem follows_chain {bound : Nat} (hop : ∀ k, isOperator k = true ↔ k ∈ level.operators)
    (hoperand : ExprFollows f level.operand n room operand operand') (hbound : room ≤ bound) :
    ExprFollows f (.joined level) n room (chain level.combine isOperator operand n)
      (chain level.combine isOperator operand' bound) := by
  refine ⟨reads_chain level hop hoperand.reads, ?_⟩
  refine hoperand.bind (fun _ => id) (fun t front hfront => ⟨.operand t, hfront⟩) fun t => ?_
  have hlen : room - t.tokens.length ≤ bound := Nat.le_trans (Nat.sub_le _ _) hbound
  refine (follows_chainFrom hop hoperand (Nat.sub_le _ _) hlen (.operand t)).mono
    (Nat.le_refl _) ?_ ?_
  · rintro ts ⟨hts, -⟩
    rw [List.length_append] at hts
    omega
  · exact fun _ _ _ => id

end Chains

/-- **Chains of operands at all levels** follow if the expression inside parentheses does. -/
theorem follows_logicOr (hinner : ExprFollows f .assignment n room inner inner') :
    ExprFollows f (.joined .logicOr) (n + 1) (room + 1) (logicOr inner (n + 1))
      (logicOr inner' (room + 1)) := by
  have hfactor : ExprFollows f (.joined .factor) (n + 1) (room + 1) (factor inner (n + 1))
      (factor inner' (room + 1)) :=
    follows_chain .factor
      (by intro k; cases k <;> simp [isFactorOperator, Level.operators])
      (follows_unary hinner) (Nat.le_refl _)
  have hterm : ExprFollows f (.joined .term) (n + 1) (room + 1) (term inner (n + 1))
      (term inner' (room + 1)) :=
    follows_chain .term (by intro k; cases k <;> simp [isTermOperator, Level.operators])
      hfactor (Nat.le_refl _)
  have hcomparison : ExprFollows f (.joined .comparison) (n + 1) (room + 1)
      (comparison inner (n + 1)) (comparison inner' (room + 1)) :=
    follows_chain .comparison
      (by intro k; cases k <;> simp [isComparisonOperator, Level.operators]) hterm (Nat.le_refl _)
  have hequality : ExprFollows f (.joined .equality) (n + 1) (room + 1) (equality inner (n + 1))
      (equality inner' (room + 1)) :=
    follows_chain .equality
      (by intro k; cases k <;> simp [isEqualityOperator, Level.operators]) hcomparison
      (Nat.le_refl _)
  have hand : ExprFollows f (.joined .logicAnd) (n + 1) (room + 1) (logicAnd inner (n + 1))
      (logicAnd inner' (room + 1)) :=
    follows_chain .logicAnd (by simp [Level.operators]) hequality (Nat.le_refl _)
  exact follows_chain .logicOr (by simp [Level.operators]) hand (Nat.le_refl _)

/-- **Assignments.** An equals sign behind anything but a name is blamed, although a chain of
operands is the beginning of an expression: it is the equals sign that does not go on. -/
theorem follows_assignment (hinner : ExprFollows f .assignment n room inner inner') :
    ExprFollows f .assignment (n + 1) (room + 1) (assignment inner (n + 1))
      (assignment inner' (room + 1)) := by
  refine ⟨reads_assignment hinner.reads, ?_⟩
  refine (follows_logicOr hinner).bind (fun _ => id)
    (fun t front hfront => ⟨.plain t, hfront⟩) fun target => ?_
  refine follows_of_opens rfl fun t rest hts => ?_
  by_cases h : (t.kind ≠ .endOfInput && decide (t.kind = .equal)) = true
  · have hequal : t.kind = .equal := of_decide_eq_true (Bool.and_eq_true _ _ ▸ h).2
    cases hname : target.expr with
    | reference name =>
      obtain ⟨htokens, hkind⟩ := ExprTree.tokens_of_expr_eq_reference hname
      refine .passes (accept_bind_cons_of_wanted h) (accept_bind_cons_of_wanted h) ?_
      rw [htokens]
      refine (hinner.mono (Nat.le_refl _) (Nat.sub_le _ _)).bind (fun ts hts => ?_)
        (fun value front hfront => ?_) fun value => follows_pure rfl
      · exact Nat.le_of_succ_le (Nat.le_of_succ_le_succ hts.1)
      · -- the name and the equals sign in front of an expression
        refine ⟨.assign (.ofKind hkind) (.ofKind hequal) value, ?_⟩
        exact List.cons_prefix_cons.2 ⟨rfl, List.cons_prefix_cons.2 ⟨rfl, hfront⟩⟩
    | _ =>
      refine .blames .invalidAssignmentTarget (fun rest => ?_) (fun rest => ?_)
        ⟨.plain target, by simp [ExprTree.tokens]⟩
      · rw [accept_bind_cons_of_wanted h]
        rfl
      · rw [accept_bind_cons_of_wanted h]
        rfl
  · refine .looks (accept_bind_cons_of_not_wanted h) (accept_bind_cons_of_not_wanted h) ?_
    exact follows_pure rfl

/-- **Expressions follow**, whatever tokens are left. -/
theorem follows_expression (n room : Nat) :
    ExprFollows f .assignment n room (expression n) (expression room) := by
  induction n generalizing room with
  | zero => exact ⟨reads_expression 0, follows_endOfTokens⟩
  | succ n ih =>
    cases room with
    | zero =>
      have hone := (follows_assignment (ih 0)).mono (Nat.le_refl _) (Nat.zero_le 1)
      exact ⟨hone.reads, hone.follows.of_no_room⟩
    | succ room => exact follows_assignment (ih room)

end Expressions

/-! ## Clauses -/

section Clauses

variable {expr expr' : Rule Expr}

/-- The token that ends a statement. -/
theorem follows_end {kind : TokenKind} {otherwise : SyntaxErrorKind} {s s' : Stmt}
    (hend : kind ≠ .endOfInput) (hotherwise : otherwise ≠ .invalidAssignmentTarget)
    (hs : s' = s.moved f) (hP : ∀ ts, L ts → P []) :
    Follows f room L P (Stmt.moved f) (do let _ ← expect kind otherwise; return s)
      (do let _ ← expect kind otherwise; return s') :=
  follows_expect_bind hend hotherwise hP fun _ => follows_pure hs

/-- An expression and the token behind it. -/
theorem follows_expr_expect {kind : TokenKind} {otherwise : SyntaxErrorKind} {k : Expr → Rule α}
    {k' : Expr → Rule β} (hexpr : ExprFollows f .assignment n room expr expr')
    (hend : kind ≠ .endOfInput) (hotherwise : otherwise ≠ .invalidAssignmentTarget)
    (hL : ∀ ts, L ts → ts.length ≤ n)
    (hP : ∀ e : Expression, ∀ front, front <+: e.tokens → P front)
    (hk : ∀ e : Expression, ∀ mark : Mark kind, Follows f (room - 1)
      (fun rest => L (e.tokens ++ mark.token :: rest))
      (fun front => P (e.tokens ++ mark.token :: front)) m (k e.expr) (k' (e.expr.moved f))) :
    Follows f room L P m
      (do let e ← expr
          let _ ← expect kind otherwise
          k e)
      (do let e ← expr'
          let _ ← expect kind otherwise
          k' e) := by
  refine hexpr.bind hL hP fun e => ?_
  refine follows_expect_bind hend hotherwise (fun _ _ => ?_) fun mark => ?_
  · rw [List.append_nil]
    exact hP e _ (List.prefix_refl _)
  · exact (hk e mark).mono (by omega) (fun _ hts => hts.1) fun _ _ _ => id

/-- A condition in parentheses. -/
theorem follows_condition {unopened unclosed : SyntaxErrorKind} {k : Expr → Rule α}
    {k' : Expr → Rule β} (hexpr : ExprFollows f .assignment n room expr expr')
    (hunopened : unopened ≠ .invalidAssignmentTarget)
    (hunclosed : unclosed ≠ .invalidAssignmentTarget) (hL : ∀ ts, L ts → ts.length ≤ n)
    (hP : ∀ (opening : Mark .leftParen) (e : Expression) (front : List Token),
      front <+: opening.token :: e.tokens → P front)
    (hk : ∀ (opening : Mark .leftParen) (e : Expression) (closing : Mark .rightParen),
      Follows f (room - 1)
        (fun rest => L (opening.token :: (e.tokens ++ closing.token :: rest)))
        (fun front => P (opening.token :: (e.tokens ++ closing.token :: front))) m (k e.expr)
        (k' (e.expr.moved f))) :
    Follows f room L P m
      (do let _ ← expect .leftParen unopened
          let e ← expr
          let _ ← expect .rightParen unclosed
          k e)
      (do let _ ← expect .leftParen unopened
          let e ← expr'
          let _ ← expect .rightParen unclosed
          k' e) := by
  refine follows_expect_bind (by decide) hunopened
    (fun _ _ => hP default default [] List.nil_prefix) fun opening => ?_
  refine follows_expr_expect (hexpr.mono (Nat.le_refl _) (Nat.sub_le _ _)) (by decide) hunclosed
    (fun ts hts => Nat.le_of_succ_le (hL _ hts)) (fun e front hfront => ?_) fun e closing => ?_
  · exact hP opening e _ (List.cons_prefix_cons.2 ⟨rfl, hfront⟩)
  · exact (hk opening e closing).mono (Nat.sub_le _ _) (fun _ => id) fun _ _ _ => id

/-- In front of the token behind it, an expression is left out. -/
theorem optionalBefore_bind_of_eq {kind : TokenKind} (hend : kind ≠ .endOfInput)
    {k : Option Expr → Rule α} {t : Token} (h : t.kind = kind) (rest : List Token) :
    (optionalBefore kind expr >>= k) (t :: rest) = k none (t :: rest) := by
  have hcheck : (decide (t.kind ≠ .endOfInput) && decide (t.kind = kind)) = true := by
    simp [h, hend]
  rw [optionalBefore, bind_assoc]
  show (if (decide (t.kind ≠ .endOfInput) && decide (t.kind = kind)) = true then pure none
    else some <$> expr : Rule (Option Expr)).bind k _ = _
  rw [if_pos hcheck]
  rfl

/-- In front of any other token it is read. -/
theorem optionalBefore_bind_of_ne {kind : TokenKind} {k : Option Expr → Rule α} {t : Token}
    (h : t.kind ≠ kind) (rest : List Token) :
    (optionalBefore kind expr >>= k) (t :: rest) = (expr >>= fun e => k (some e)) (t :: rest) := by
  have hcheck : ¬ (decide (t.kind ≠ .endOfInput) && decide (t.kind = kind)) = true := by simp [h]
  rw [optionalBefore, bind_assoc, ← bind_map_left]
  show (if (decide (t.kind ≠ .endOfInput) && decide (t.kind = kind)) = true then pure none
    else some <$> expr : Rule (Option Expr)).bind k _ = _
  rw [if_neg hcheck]
  rfl

/-- An expression that may be left out, and the token behind it. -/
theorem follows_optionalBefore_expect {kind : TokenKind} {otherwise : SyntaxErrorKind}
    {k : Option Expr → Rule α} {k' : Option Expr → Rule β}
    (hexpr : ExprFollows f .assignment n room expr expr') (hend : kind ≠ .endOfInput)
    (hotherwise : otherwise ≠ .invalidAssignmentTarget) (hL : ∀ ts, L ts → ts.length ≤ n)
    (hP : ∀ e : Option Expression, ∀ front, front <+: optionalTokens e → P front)
    (hk : ∀ (e : Option Expression) (mark : Mark kind), Follows f (room - 1)
      (fun rest => L (optionalTokens e ++ mark.token :: rest))
      (fun front => P (optionalTokens e ++ mark.token :: front)) m (k (e.map ExprTree.expr))
      (k' ((e.map ExprTree.expr).map (Expr.moved f)))) :
    Follows f room L P m
      (do let e ← optionalBefore kind expr
          let _ ← expect kind otherwise
          k e)
      (do let e ← optionalBefore kind expr'
          let _ ← expect kind otherwise
          k' e) := by
  refine follows_of_opens rfl fun t rest hts => ?_
  -- the token behind the expression decides whether there is one
  by_cases h : t.kind = kind
  · refine .looks (optionalBefore_bind_of_eq hend h) (optionalBefore_bind_of_eq hend h) ?_
    refine follows_expect_bind hend hotherwise (fun _ _ => hP none [] List.nil_prefix)
      fun mark => ?_
    exact (hk none mark).mono (Nat.le_refl _) (fun _ hts => hts.1) fun _ _ _ => id
  · refine .looks (optionalBefore_bind_of_ne h) (optionalBefore_bind_of_ne h) ?_
    refine follows_expr_expect hexpr hend hotherwise (fun ts hts => hL ts hts.1)
      (fun e => hP (some e)) fun e mark => ?_
    exact (hk (some e) mark).mono (Nat.le_refl _) (fun _ hts => hts.1) fun _ _ _ => id

/-- Variable declarations, behind their word. -/
theorem follows_variableDeclaration (hexpr : ExprFollows f .assignment n room expr expr')
    (word : Mark (.keyword .varWord)) :
    Follows f room (fun ts => ts.length ≤ n)
      (fun front => ∃ d : VariableDeclaration, d.word = word ∧ word.token :: front <+: d.tokens)
      (Stmt.moved f) (variableDeclaration expr) (variableDeclaration expr') := by
  refine follows_expect_bind (by decide) (by decide)
    (fun _ _ => ⟨⟨word, default, none, default⟩, rfl, by simp [VariableDeclaration.tokens]⟩)
    fun name => ?_
  refine follows_accept_bind (fun equals => ?_) ?_
  · show Follows f _ _ _ _ ((some <$> expr) >>= _) ((some <$> expr') >>= _)
    rw [bind_map_left, bind_map_left]
    refine follows_expr_expect (hexpr.mono (Nat.le_refl _) (by omega)) (by decide) (by decide)
      (fun ts hts => Nat.le_of_succ_le (Nat.le_of_succ_le hts)) (fun e front hfront => ?_)
      fun e closing => follows_pure rfl
    refine ⟨⟨word, name, some (equals, e), default⟩, rfl, ?_⟩
    simp only [VariableDeclaration.tokens, List.cons_append, List.cons_prefix_cons, true_and]
    exact hfront.trans (List.prefix_append _ _)
  · refine follows_end (by decide) (by decide) rfl fun _ _ => ?_
    exact ⟨⟨word, name, none, default⟩, rfl, by simp [VariableDeclaration.tokens]⟩

/-- Expression statements. -/
theorem follows_expressionStatement (hexpr : ExprFollows f .assignment n room expr expr') :
    Follows f room (fun ts => ts.length ≤ n)
      (fun front => ∃ s : ExpressionStatement, front <+: s.tokens) (Stmt.moved f)
      (expressionStatement expr) (expressionStatement expr') := by
  refine follows_expr_expect hexpr (by decide) (by decide) (fun _ => id) (fun e front hfront => ?_)
    fun e closing => follows_pure rfl
  exact ⟨⟨e, default⟩, hfront.trans (List.prefix_append _ _)⟩

/-- First clauses of `for` loops. -/
theorem follows_forInitializer (hexpr : ExprFollows f .assignment n room expr expr') :
    Follows f room (fun ts => ts.length ≤ n)
      (fun front => ∃ i : ForInitializer, front <+: i.tokens) (Option.map (Stmt.moved f))
      (forInitializer expr) (forInitializer expr') := by
  refine follows_of_opens rfl fun t rest hts => ?_
  -- the first token tells the three forms apart
  by_cases hsemicolon : t.kind = .semicolon
  · exact .passes (y := pure none) (z := pure none)
      (fun _ => forInitializer_of_semicolon hsemicolon)
      (fun _ => forInitializer_of_semicolon (t := t.moved f) hsemicolon) (follows_pure rfl)
  · by_cases hvar : t.kind = .keyword .varWord
    · refine .passes (fun _ => forInitializer_of_var hvar)
        (fun _ => forInitializer_of_var (t := t.moved f) hvar) ?_
      refine (follows_some (follows_variableDeclaration hexpr (.ofKind hvar))).mono
        (Nat.sub_le _ _) (fun _ => Nat.le_of_succ_le) ?_
      rintro _ _ front ⟨d, -, hfront⟩
      exact ⟨.declaration d, hfront⟩
    · refine .looks (fun _ => forInitializer_of_other hsemicolon hvar)
        (fun _ => forInitializer_of_other (t := t.moved f) hsemicolon hvar) ?_
      refine (follows_some (follows_expressionStatement hexpr)).mono
        (Nat.le_refl _) (fun _ hts => hts.1) ?_
      rintro _ _ front ⟨s, hfront⟩
      exact ⟨.expression s, hfront⟩

/-- The first clause of a `for` loop, and what is done behind it. -/
theorem follows_forInitializer_bind {k : Option Stmt → Rule α} {k' : Option Stmt → Rule β}
    (hexpr : ExprFollows f .assignment n room expr expr') (hL : ∀ ts, L ts → ts.length ≤ n)
    (hP : ∀ i : ForInitializer, ∀ front, front <+: i.tokens → P front)
    (hk : ∀ i : ForInitializer, Follows f room (fun mid => L (i.tokens ++ mid))
      (fun more => P (i.tokens ++ more)) m (k i.desugar) (k' (i.desugar.map (Stmt.moved f)))) :
    Follows f room L P m (forInitializer expr >>= k) (forInitializer expr' >>= k') := by
  refine follows_bind ((follows_forInitializer hexpr).mono (Nat.le_refl _) hL ?_)
    fun a front => ?_
  · rintro _ _ front ⟨i, hfront⟩
    exact hP i front hfront
  · rintro seen back back' ⟨hts, hok⟩ hlen
    obtain ⟨i, htokens, rfl⟩ := (forInitializer_eq_ok_iff hexpr.reads (hL _ hts)).1 hok
    obtain rfl := List.append_cancel_right htokens
    exact hk i seen back back' hts (Nat.le_trans hlen (Nat.sub_le _ _))

end Clauses

/-! ## Statements -/

/-- Tokens that begin a statement. -/
def Statement.Viable (front : List Token) : Prop :=
  ∃ s : Statement, s.Proper ∧ front <+: s.tokens

/-- In front of at most `n` tokens a rule reads statements, is rejected behind a beginning of one,
and answers like another rule as long as it stops in what they share. -/
structure StatementFollows (f : Int → Int) (n room : Nat) (x x' : Rule Stmt) : Prop where
  reads : ReadsStatement n x
  follows : Follows f room (fun ts => ts.length ≤ n) Statement.Viable (Stmt.moved f) x x'

/-- There may be less room. -/
theorem StatementFollows.mono {x x' : Rule Stmt} {n' room' : Nat}
    (h : StatementFollows f n room x x') (hn : n' ≤ n) (hroom : room' ≤ room) :
    StatementFollows f n' room' x x' where
  reads := fun ts hts => h.reads ts (Nat.le_trans hts hn)
  follows := h.follows.mono hroom (fun _ hts => Nat.le_trans hts hn) fun _ _ _ => id

section Statements

variable {expr expr' : Rule Expr} {body body' : Rule Stmt}

/-- A statement, and what is done behind it. -/
theorem StatementFollows.bind {x x' : Rule Stmt} {k : Stmt → Rule α} {k' : Stmt → Rule β}
    (hx : StatementFollows f n room x x') (hL : ∀ ts, L ts → ts.length ≤ n)
    (hP : ∀ ts, L ts → ∀ s : Statement, s.Proper → ∀ front, front <+: s.tokens → P front)
    (hk : ∀ s : Statement, Follows f room
      (fun mid => L (s.tokens ++ mid) ∧ s.Spans (s.tokens ++ mid) mid)
      (fun more => P (s.tokens ++ more)) m (k s.desugar) (k' (s.desugar.moved f))) :
    Follows f room L P m (x >>= k) (x' >>= k') := by
  refine follows_bind (hx.follows.mono (Nat.le_refl _) hL ?_) fun a front => ?_
  · rintro ts hts front ⟨s, hproper, hs⟩
    exact hP ts hts s hproper front hs
  · rintro seen back back' ⟨hts, hok⟩ hlen
    obtain ⟨s, hspans, rfl⟩ := (hx.reads _ (hL _ hts) _ _).1 hok
    obtain rfl := List.append_cancel_right hspans.tokens_eq
    exact hk s seen back back' ⟨hts, hspans⟩ (Nat.le_trans hlen (Nat.sub_le _ _))

/-- Loops, behind `while`. -/
theorem follows_whileStatement (hexpr : ExprFollows f .assignment n room expr expr')
    (hbody : StatementFollows f n room body body') (word : Mark (.keyword .whileWord)) :
    Follows f room (fun ts => ts.length ≤ n) (fun front => Statement.Viable (word.token :: front))
      (Stmt.moved f) (whileStatement expr body) (whileStatement expr' body') := by
  refine follows_condition hexpr (by decide) (by decide) (fun _ => id)
    (fun opening e front hfront => ?_) fun opening e closing => ?_
  · refine ⟨.whileLoop word opening e default default, trivial, ?_⟩
    exact List.cons_prefix_cons.2 ⟨rfl, hfront.trans (by simp)⟩
  · refine (hbody.mono (Nat.le_refl _) (Nat.sub_le _ _)).bind (fun ts hts => ?_)
      (fun _ _ s hproper front hfront => ?_) fun s => follows_pure rfl
    · simp only [List.length_append, List.length_cons] at hts
      omega
    · refine ⟨.whileLoop word opening e closing s, hproper, ?_⟩
      simpa [Statement.tokens] using hfront

/-- Conditionals, behind `if`. The first branch ends in no open conditional where an `else` was
found behind it. -/
theorem follows_ifStatement (hexpr : ExprFollows f .assignment n room expr expr')
    (hbody : StatementFollows f n room body body') (word : Mark (.keyword .ifWord)) :
    Follows f room (fun ts => ts.length ≤ n) (fun front => Statement.Viable (word.token :: front))
      (Stmt.moved f) (ifStatement expr body) (ifStatement expr' body') := by
  refine follows_condition hexpr (by decide) (by decide) (fun _ => id)
    (fun opening e front hfront => ?_) fun opening e closing => ?_
  · refine ⟨.branch word opening e default default, trivial, ?_⟩
    exact List.cons_prefix_cons.2 ⟨rfl, hfront.trans (by simp)⟩
  · refine (hbody.mono (Nat.le_refl _) (Nat.sub_le _ _)).bind (fun ts hts => ?_)
      (fun _ _ s hproper front hfront => ?_) fun s => ?_
    · simp only [List.length_append, List.length_cons] at hts
      omega
    · refine ⟨.branch word opening e closing s, hproper, ?_⟩
      simpa [Statement.tokens] using hfront
    · refine follows_accept_bind (fun elseWord => ?_) (follows_pure rfl)
      refine (hbody.mono (Nat.le_refl _) (by omega)).bind (fun ts hts => ?_)
        (fun ts hts s' hproper' front hfront => ?_) fun s' => follows_pure rfl
      · have hlen := hts.1
        simp only [List.length_append, List.length_cons] at hlen
        omega
      · have hspans := hts.2
        have hopen : s.endsOpen = false := by
          rw [← Bool.not_eq_true]
          exact fun hopen => not_stops_mark elseWord _ (hspans.closed hopen)
        refine ⟨.branchElse word opening e closing s elseWord s',
          ⟨hspans.proper, hopen, hproper'⟩, ?_⟩
        simpa [Statement.tokens] using hfront

/-- A loop on other lines. -/
theorem Stmt.moved_forLoop (initializer : Option Stmt) (condition increment : Option Expr)
    (body : Stmt) :
    (Stmt.forLoop initializer condition increment body).moved f =
      Stmt.forLoop (initializer.map (Stmt.moved f)) (condition.map (Expr.moved f))
        (increment.map (Expr.moved f)) (body.moved f) := by
  cases initializer <;> cases condition <;> cases increment <;> rfl

/-- Loops, behind `for`. -/
theorem follows_forStatement (hexpr : ExprFollows f .assignment n room expr expr')
    (hbody : StatementFollows f n room body body') (word : Mark (.keyword .forWord)) :
    Follows f room (fun ts => ts.length ≤ n) (fun front => Statement.Viable (word.token :: front))
      (Stmt.moved f) (forStatement expr body) (forStatement expr' body') := by
  refine follows_expect_bind (by decide) (by decide) (fun _ _ => ?_) fun opening => ?_
  · exact ⟨.forLoop word default (.absent default) none default none default default, trivial,
      by simp [Statement.tokens]⟩
  have hexpr' := hexpr.mono (Nat.le_refl n) (Nat.sub_le room 1)
  refine follows_forInitializer_bind hexpr' (fun ts hts => Nat.le_of_succ_le hts)
    (fun i front hfront => ?_) fun i => ?_
  · refine ⟨.forLoop word opening i none default none default default, trivial, ?_⟩
    exact List.cons_prefix_cons.2 ⟨rfl, List.cons_prefix_cons.2
      ⟨rfl, hfront.trans (List.prefix_append _ _)⟩⟩
  refine follows_optionalBefore_expect hexpr' (by decide) (by decide) (fun ts hts => ?_)
    (fun condition front hfront => ?_) fun condition separator => ?_
  · simp only [List.length_append, List.length_cons] at hts
    omega
  · refine ⟨.forLoop word opening i condition default none default default, trivial, ?_⟩
    simpa [Statement.tokens] using hfront.trans (List.prefix_append _ _)
  refine follows_optionalBefore_expect (hexpr'.mono (Nat.le_refl _) (Nat.sub_le _ _)) (by decide)
    (by decide) (fun ts hts => ?_) (fun increment front hfront => ?_) fun increment closing => ?_
  · simp only [List.length_append, List.length_cons] at hts
    omega
  · refine ⟨.forLoop word opening i condition separator increment default default, trivial, ?_⟩
    simpa [Statement.tokens] using hfront.trans (List.prefix_append _ _)
  refine (hbody.mono (Nat.le_refl _) (by omega)).bind (fun ts hts => ?_)
    (fun _ _ s hproper front hfront => ?_) fun s => follows_pure (Stmt.moved_forLoop _ _ _ _).symm
  · simp only [List.length_append, List.length_cons] at hts
    omega
  · refine ⟨.forLoop word opening i condition separator increment closing s, hproper, ?_⟩
    simpa [Statement.tokens] using hfront

/-- Print statements, behind their word. -/
theorem follows_printStatement (hexpr : ExprFollows f .assignment n room expr expr')
    (word : Mark (.keyword .printWord)) :
    Follows f room (fun ts => ts.length ≤ n) (fun front => Statement.Viable (word.token :: front))
      (Stmt.moved f) (printStatement expr) (printStatement expr') := by
  refine follows_expr_expect hexpr (by decide) (by decide) (fun _ => id) (fun e front hfront => ?_)
    fun e closing => follows_pure rfl
  refine ⟨.print word e default, trivial, ?_⟩
  exact List.cons_prefix_cons.2 ⟨rfl, hfront.trans (List.prefix_append _ _)⟩

end Statements

/-! ## Declarations -/

/-- Tokens that begin a declaration. -/
def Declaration.Viable (front : List Token) : Prop :=
  ∃ d : Declaration, d.Proper ∧ front <+: d.tokens

/-- In front of at most `n` tokens a rule reads declarations, is rejected behind a beginning of one,
and answers like another rule as long as it stops in what they share. -/
structure DeclarationFollows (f : Int → Int) (n room : Nat) (x x' : Rule Stmt) : Prop where
  reads : ReadsDeclaration n x
  follows : Follows f room (fun ts => ts.length ≤ n) Declaration.Viable (Stmt.moved f) x x'

/-- There may be less room. -/
theorem DeclarationFollows.mono {x x' : Rule Stmt} {n' room' : Nat}
    (h : DeclarationFollows f n room x x') (hn : n' ≤ n) (hroom : room' ≤ room) :
    DeclarationFollows f n' room' x x' where
  reads := fun ts hts => h.reads ts (Nat.le_trans hts hn)
  follows := h.follows.mono hroom (fun _ hts => Nat.le_trans hts hn) fun _ _ _ => id

section Declarations

variable {expr expr' : Rule Expr} {other other' item item' : Rule Stmt}

/-- Declarations and statements. -/
theorem follows_declarationOr (hexpr : ExprFollows f .assignment n room expr expr')
    (hother : StatementFollows f n room other other') :
    DeclarationFollows f n room (declarationOr expr other) (declarationOr expr' other') := by
  refine ⟨reads_declarationOr hexpr.reads hother.reads, follows_accept_bind (fun word => ?_) ?_⟩
  · refine (follows_variableDeclaration hexpr word).mono (Nat.sub_le _ _)
      (fun _ => Nat.le_of_succ_le) ?_
    rintro _ _ front ⟨d, -, hfront⟩
    exact ⟨.binding d, trivial, hfront⟩
  · refine hother.follows.mono (Nat.le_refl _) (fun _ => id) ?_
    rintro _ _ front ⟨s, hproper, hfront⟩
    exact ⟨.statement s, hproper, hfront⟩

/-- Tokens that begin declarations one after the other. -/
def Declaration.AllViable (front : List Token) : Prop :=
  ∃ ds, Declaration.AllProper ds ∧ front <+: Declaration.allTokens ds

/-- A declaration, and the declarations behind it. -/
theorem DeclarationFollows.bind {x x' : Rule Stmt} {k : Stmt → Rule (List Stmt)}
    {k' : Stmt → Rule (List Stmt)} (hx : DeclarationFollows f n room x x')
    (hL : ∀ ts, L ts → ts.length ≤ n)
    (hk : ∀ d : Declaration, Follows f (room - 1)
      (fun mid => L (d.tokens ++ mid)) Declaration.AllViable (Stmt.allMoved f)
      (k d.desugar) (k' (d.desugar.moved f))) :
    Follows f room L Declaration.AllViable (Stmt.allMoved f) (x >>= k) (x' >>= k') := by
  refine follows_bind (hx.follows.mono (Nat.le_refl _) hL ?_) fun a front => ?_
  · rintro ts hts front ⟨d, hproper, hfront⟩
    exact ⟨[d], ⟨hproper, trivial⟩, by simpa [Declaration.allTokens] using hfront⟩
  · rintro seen back back' ⟨hts, hok⟩ hlen
    obtain ⟨d, hspans, rfl⟩ := (hx.reads _ (hL _ hts) _ _).1 hok
    obtain rfl := List.append_cancel_right hspans.tokens_eq
    have hpositive := d.length_lt_append []
    rw [List.append_nil, List.length_nil] at hpositive
    refine (hk d seen back back' hts (by omega)).mono ?_
    rintro more ⟨ds, hall, hmore⟩
    exact ⟨d :: ds, ⟨hspans.proper, hall⟩, (List.prefix_append_right_inj _).2 hmore⟩

section Loops

variable {ends : List TokenKind} {items items' : Nat → Rule Stmt}
  {loop loop' : Nat → List Stmt → Rule (List Stmt)}

/-- One more declaration. -/
theorem RepeatsUntil.follows_succ (hloop : RepeatsUntil ends items loop)
    (hloop' : RepeatsUntil ends items' loop') {rounds room' : Nat} (rounds' : Nat)
    (hitem : DeclarationFollows f (min (rounds + 1) n) room' (items (rounds + 1))
      (items' (rounds' + 1)))
    (hnext : ∀ found, Follows f (room' - 1) (fun ts => ts.length ≤ min rounds n)
      Declaration.AllViable (Stmt.allMoved f) (loop rounds found)
      (loop' rounds' (Stmt.allMoved f found))) (found : List Stmt) :
    Follows f room' (fun ts => ts.length ≤ min (rounds + 1) n) Declaration.AllViable
      (Stmt.allMoved f) (loop (rounds + 1) found)
      (loop' (rounds' + 1) (Stmt.allMoved f found)) := by
  refine follows_of_opens (hloop.nil _ _) fun t rest hts => ?_
  by_cases hmem : t.kind ∈ ends
  · refine .looks (y := pure found.reverse) (z := pure (Stmt.allMoved f found).reverse)
      (fun rest => hloop.stop _ _ _ rest hmem) (fun rest => hloop'.stop _ _ _ rest hmem) ?_
    refine follows_pure ?_
    rw [Stmt.allMoved_eq_map, Stmt.allMoved_eq_map, List.map_reverse]
  · refine .looks (fun rest => hloop.next _ _ _ rest hmem)
      (fun rest => hloop'.next _ _ _ rest hmem) ?_
    refine hitem.bind (fun ts hts => hts.1) fun d => ?_
    -- a declaration is a token at least, for one round
    refine (hnext (d.desugar :: found)).mono (Nat.le_refl _) (fun ts hts => ?_) fun _ _ _ => id
    have hlen := d.length_lt_append ts
    have hbound := hts.1
    simp only [Nat.le_min] at hbound ⊢
    omega

/-- **Declarations up to an end** follow if each of them does. -/
theorem RepeatsUntil.follows (hloop : RepeatsUntil ends items loop)
    (hloop' : RepeatsUntil ends items' loop')
    (hitem : ∀ rounds rounds', DeclarationFollows f (min rounds n) (min rounds' room)
      (items rounds) (items' rounds')) (rounds : Nat) {rounds' room' : Nat}
    (hrounds : room' ≤ min rounds' room) (found : List Stmt) :
    Follows f room' (fun ts => ts.length ≤ min rounds n) Declaration.AllViable (Stmt.allMoved f)
      (loop rounds found) (loop' rounds' (Stmt.allMoved f found)) := by
  have hmono : ∀ {rounds rounds' room'}, room' ≤ min rounds' room →
      DeclarationFollows f (min rounds n) room' (items rounds) (items' rounds') :=
    fun h => (hitem _ _).mono (Nat.le_refl _) h
  induction rounds generalizing rounds' room' found with
  | zero =>
    rw [hloop.zero]
    exact follows_endOfTokens
  | succ rounds ih =>
    cases rounds' with
    | zero =>
      obtain rfl : room' = 0 := by omega
      exact (hloop.follows_succ hloop' 0 (hmono (Nat.zero_le _))
        (fun found => ih (Nat.zero_le _) found) found).of_no_room
    | succ rounds' =>
      exact hloop.follows_succ hloop' rounds' (hmono hrounds)
        (fun found => ih (by omega) found) found

end Loops

/-- Blocks, behind their opening brace. -/
theorem follows_block {bound bound' : Nat} (hitem : DeclarationFollows f n room item item')
    (hbound : n ≤ bound) (hbound' : room ≤ bound') :
    Follows f room (fun ts => ts.length ≤ n)
      (fun front => ∃ ds, ∃ closing : Mark .rightBrace, Declaration.AllProper ds ∧
        front <+: Declaration.allTokens ds ++ [closing.token])
      (Stmt.allMoved f) (block item bound) (block item' bound') := by
  have hitems : ∀ rounds rounds', DeclarationFollows f (min rounds n) (min rounds' room) item
      item' :=
    fun _ _ => hitem.mono (Nat.min_le_right _ _) (Nat.min_le_right _ _)
  have hloop := (repeatsUntil_declarationsOnto item).follows
    (repeatsUntil_declarationsOnto item') hitems bound
    (Nat.le_min.2 ⟨hbound', Nat.le_refl _⟩) []
  refine follows_bind (hloop.mono (Nat.le_refl _) (fun ts hts => Nat.le_min.2
    ⟨Nat.le_trans hts hbound, hts⟩) ?_) fun a front => ?_
  · rintro _ _ front ⟨ds, hall, hfront⟩
    exact ⟨ds, default, hall, hfront.trans (List.prefix_append _ _)⟩
  · refine follows_expect_bind (by decide) (by decide) ?_ fun closing => follows_pure rfl
    rintro ts ⟨hts, hok⟩
    obtain ⟨ds, htokens, hall, -⟩ :=
      (declarationsOnto_eq_ok_iff hitem.reads (Nat.le_trans hts hbound) hts).1 hok
    obtain rfl := List.append_cancel_right htokens
    exact ⟨ds, default, hall, by simp⟩

end Declarations

/-! ## Statements of any form, and programs -/

/-- **Statements of any form** follow if the expressions and statements inside them do. -/
theorem follows_statementOver {expr expr' : Rule Expr} {inner inner' : Rule Stmt}
    (hexpr : ExprFollows f .assignment (n + 1) (room + 1) expr expr')
    (hinner : StatementFollows f n room inner inner') :
    StatementFollows f (n + 1) (room + 1) (statementOver expr inner (n + 1))
      (statementOver expr' inner' (room + 1)) := by
  refine ⟨reads_statementOver hexpr.reads hinner.reads, follows_of_opens rfl fun t rest hts => ?_⟩
  have hexpr' := hexpr.mono (Nat.le_succ n) (Nat.le_succ room)
  have hshort : ∀ rest : List Token, (t :: rest).length ≤ n + 1 → rest.length ≤ n :=
    fun _ => Nat.le_of_succ_le_succ
  by_cases hmem : t.kind ∈ leaders
  · simp only [leaders, List.mem_cons, List.not_mem_nil, or_false] at hmem
    rcases hmem with hword | hword | hword | hword | hword
    · exact .passes (fun _ => statementOver_of_for hword)
        (fun _ => statementOver_of_for (t := t.moved f) hword)
        ((follows_forStatement hexpr' hinner (.ofKind hword)).mono (Nat.le_refl _) hshort
          fun _ _ _ => id)
    · exact .passes (fun _ => statementOver_of_if hword)
        (fun _ => statementOver_of_if (t := t.moved f) hword)
        ((follows_ifStatement hexpr' hinner (.ofKind hword)).mono (Nat.le_refl _) hshort
          fun _ _ _ => id)
    · exact .passes (fun _ => statementOver_of_print hword)
        (fun _ => statementOver_of_print (t := t.moved f) hword)
        ((follows_printStatement hexpr' (.ofKind hword)).mono (Nat.le_refl _) hshort
          fun _ _ _ => id)
    · exact .passes (fun _ => statementOver_of_while hword)
        (fun _ => statementOver_of_while (t := t.moved f) hword)
        ((follows_whileStatement hexpr' hinner (.ofKind hword)).mono (Nat.le_refl _) hshort
          fun _ _ _ => id)
    · refine .passes (fun _ => statementOver_of_leftBrace hword)
        (fun _ => statementOver_of_leftBrace (t := t.moved f) hword) ?_
      have hblock := follows_block (follows_declarationOr hexpr' hinner) (Nat.le_succ n)
        (Nat.le_succ room)
      have hstatement : Follows f room (fun ts => ts.length ≤ n) _ (Stmt.moved f) (.block <$> _)
        (.block <$> _) := follows_map hblock fun _ => rfl
      refine hstatement.mono (Nat.le_refl _) hshort ?_
      rintro _ _ front ⟨ds, closing, hall, hfront⟩
      exact ⟨.block (.ofKind hword) ds closing, hall, List.cons_prefix_cons.2 ⟨rfl, hfront⟩⟩
  · refine .looks (fun _ => statementOver_of_not_mem hmem)
      (fun _ => statementOver_of_not_mem (t := t.moved f) hmem) ?_
    refine (follows_expressionStatement hexpr).mono (Nat.le_refl _) (fun _ hts => hts.1) ?_
    rintro _ _ front ⟨s, hfront⟩
    exact ⟨.expression s, trivial, hfront⟩

/-- **Statements follow**, whatever tokens are left. -/
theorem follows_statement (n room : Nat) :
    StatementFollows f n room (statement n) (statement room) := by
  induction n generalizing room with
  | zero => exact ⟨reads_statement 0, follows_endOfTokens⟩
  | succ n ih =>
    cases room with
    | zero =>
      have hone := (follows_statementOver (follows_expression (n + 1) 1) (ih 0)).mono
        (Nat.le_refl _) (Nat.zero_le 1)
      exact ⟨hone.reads, hone.follows.of_no_room⟩
    | succ room => exact follows_statementOver (follows_expression _ _) (ih room)

/-- **Declarations follow**, whatever tokens are left. -/
theorem follows_declaration (n room : Nat) :
    DeclarationFollows f n room (declaration n) (declaration room) :=
  follows_declarationOr (follows_expression n room) (follows_statement n room)

/-- **Programs follow.** Where a program is rejected, the tokens passed begin declarations, and no
token behind the one blamed has been looked at. -/
theorem follows_program (n room : Nat) :
    Follows f room (fun ts => ts.length ≤ n) Declaration.AllViable (Stmt.allMoved f) (program n)
      (program room) := by
  have hitem : ∀ rounds rounds', DeclarationFollows f (min rounds n) (min rounds' room)
      (declaration rounds) (declaration rounds') :=
    fun rounds rounds' =>
      (follows_declaration rounds rounds').mono (Nat.min_le_left _ _) (Nat.min_le_left _ _)
  refine (repeatsUntil_programOnto.follows repeatsUntil_programOnto hitem n
    (Nat.le_min.2 ⟨Nat.le_refl room, Nat.le_refl room⟩) []).mono (Nat.le_refl _)
    (fun _ hts => Nat.le_min.2 ⟨hts, hts⟩) fun _ _ _ => id

end Lox.Surface
