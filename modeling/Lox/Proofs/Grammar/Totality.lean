import Lox.Proofs.Grammar.Programs

/-! # The rules always answer

In front of tokens with an end token among them every rule answers: with a result, or with a syntax
error. It never runs out of tokens, never passes the end token, and the rules for expressions,
statements and declarations that succeed have taken a token at least.

* **`Passes`** — what is left behind some tokens, none of which is the end token;
* **`Rule.Settled`** — an answer of a rule, the tokens it took, and at least how many they are;
* **`Settles`** — a rule answers that way wherever an end token lies ahead;
* **`settles_expression`**, **`settles_statement`**, **`settles_declaration`**,
  **`settles_program`** — the rules of the grammar do. -/

namespace Lox

/-! ## Tokens ahead -/

/-- An end token lies ahead. -/
def Ended (ts : List Token) : Prop := ∃ t ∈ ts, t.kind = .endOfInput

/-- Behind a token that is not the end token it lies ahead as before. -/
theorem Ended.of_cons {t : Token} {rest : List Token} (h : Ended (t :: rest))
    (ht : t.kind ≠ .endOfInput) : Ended rest := by
  obtain ⟨eof, hmem, heof⟩ := h
  rcases List.mem_cons.1 hmem with rfl | hmem
  · exact absurd heof ht
  · exact ⟨eof, hmem, heof⟩

/-- Some token lies ahead if the end token does. -/
theorem Ended.exists_cons {ts : List Token} (h : Ended ts) : ∃ t rest, ts = t :: rest := by
  obtain ⟨eof, hmem, -⟩ := h
  cases ts with
  | nil => cases hmem
  | cons t rest => exact ⟨t, rest, rfl⟩

/-- The second list is left of the first one when some tokens are passed, none of which is the end
token. -/
def Passes (ts rest : List Token) : Prop :=
  ∃ passed, passed ++ rest = ts ∧ ∀ t ∈ passed, t.kind ≠ .endOfInput

namespace Passes

variable {t : Token} {ts mid rest : List Token}

/-- Nothing need be passed. -/
theorem refl (ts : List Token) : Passes ts ts := ⟨[], rfl, by simp⟩

/-- A token that is not the end token may be passed. -/
theorem cons (ht : t.kind ≠ .endOfInput) (rest : List Token) : Passes (t :: rest) rest :=
  ⟨[t], rfl, by simpa using ht⟩

/-- Tokens are passed one part after the other. -/
theorem trans (h : Passes ts mid) (h' : Passes mid rest) : Passes ts rest := by
  obtain ⟨passed, rfl, hpassed⟩ := h
  obtain ⟨passed', rfl, hpassed'⟩ := h'
  refine ⟨passed ++ passed', List.append_assoc _ _ _, fun t ht => ?_⟩
  rcases List.mem_append.1 ht with ht | ht
  · exact hpassed t ht
  · exact hpassed' t ht

/-- What is left is no longer. -/
theorem length_le (h : Passes ts rest) : rest.length ≤ ts.length := by
  obtain ⟨passed, rfl, -⟩ := h
  simp

/-- The end token still lies ahead. -/
theorem ended (h : Passes ts rest) (hts : Ended ts) : Ended rest := by
  obtain ⟨passed, rfl, hpassed⟩ := h
  obtain ⟨eof, hmem, heof⟩ := hts
  rcases List.mem_append.1 hmem with hmem | hmem
  · exact absurd heof (hpassed eof hmem)
  · exact ⟨eof, hmem, heof⟩

/-- What is left is an end of the list. -/
theorem isSuffix (h : Passes ts rest) : rest <:+ ts := by
  obtain ⟨passed, htokens, -⟩ := h
  exact ⟨passed, htokens⟩

end Passes

/-! ## Answers -/

namespace Rule

variable {α β : Type}

/-- A rule answered in front of some tokens: with a result, and then it took at least `least` of
them, or with a syntax error; either way it took no end token. -/
def Settled (least : Nat) (ts : List Token) : EStateM.Result Rejection (List Token) α → Prop
  | .ok _ rest => Passes ts rest ∧ rest.length + least ≤ ts.length
  | .error (.error _) rest => Passes ts rest
  | .error .endOfTokens _ => False

variable {ts rest : List Token} {least least' : Nat}

/-- An answer behind a passed token is one token more. -/
theorem Settled.cons {t : Token} (ht : t.kind ≠ .endOfInput)
    {r : EStateM.Result Rejection (List Token) α} (h : Settled (least - 1) rest r) :
    Settled least (t :: rest) r := by
  cases r with
  | ok a final =>
    have hlen := h.2
    refine ⟨(Passes.cons ht rest).trans h.1, ?_⟩
    rw [List.length_cons]
    omega
  | error e final =>
    cases e with
    | error e => exact (Passes.cons ht rest).trans h
    | endOfTokens => exact h

/-- How many tokens an answer takes may be forgotten. -/
theorem Settled.drop {r : EStateM.Result Rejection (List Token) α} (h : Settled least ts r) :
    Settled 0 ts r := by
  cases r with
  | ok a rest => exact ⟨h.1, h.1.length_le⟩
  | error e rest =>
    cases e with
    | error e => exact h
    | endOfTokens => exact h

/-- A result at hand takes nothing. -/
theorem settled_pure (a : α) : Settled 0 ts ((pure a : Rule α) ts) :=
  ⟨.refl ts, Nat.le_refl _⟩

/-- Stopping at a token is an answer. -/
theorem settled_reject (t : Token) (kind : SyntaxErrorKind) :
    Settled least ts ((reject t kind : Rule α) ts) := Passes.refl ts

/-- Two rules one after the other answer if the second does on what the first leaves. -/
theorem settled_bind {x : Rule α} {f : α → Rule β} (hx : Settled least ts (x ts))
    (hf : ∀ a rest, Passes ts rest → rest.length + least ≤ ts.length →
      Settled (least' - least) rest (f a rest)) : Settled least' ts ((x >>= f) ts) := by
  show Settled _ ts (EStateM.bind x f ts)
  unfold EStateM.bind
  -- whatever the first rule answers is the answer, unless it is a result
  cases hxts : x ts with
  | ok a mid =>
    rw [hxts] at hx
    have hfa := hf a mid hx.1 hx.2
    show Settled _ ts (f a mid)
    cases hfmid : f a mid with
    | ok b rest =>
      rw [hfmid] at hfa
      have hlen := hx.2
      have hlen' := hfa.2
      exact ⟨hx.1.trans hfa.1, by omega⟩
    | error e rest =>
      rw [hfmid] at hfa
      cases e with
      | error e => exact hx.1.trans hfa
      | endOfTokens => exact hfa
  | error e mid =>
    rw [hxts] at hx
    cases e with
    | error e => exact hx
    | endOfTokens => exact hx

/-- Work on a result takes no tokens. -/
theorem settled_map {x : Rule α} {f : α → β} (hx : Settled least ts (x ts)) :
    Settled least ts ((f <$> x) ts) := by
  show Settled _ ts (EStateM.map f x ts)
  unfold EStateM.map
  cases hxts : x ts with
  | ok a mid =>
    rw [hxts] at hx
    exact hx
  | error e mid =>
    rw [hxts] at hx
    cases e with
    | error e => exact hx
    | endOfTokens => exact hx

/-! ## Single tokens -/

/-- Looking at the next token. -/
theorem settled_peek_bind {f : Token → Rule α} (hts : Ended ts)
    (hf : ∀ t more, ts = t :: more → Settled least ts (f t ts)) :
    Settled least ts ((peek >>= f) ts) := by
  obtain ⟨t, more, rfl⟩ := hts.exists_cons
  exact hf t more rfl

/-- Looking for a token of some kinds. -/
theorem settled_check_bind {wanted : TokenKind → Bool} {f : Bool → Rule α} (hts : Ended ts)
    (hf : ∀ b, Settled least ts (f b ts)) : Settled least ts ((check wanted >>= f) ts) := by
  obtain ⟨t, more, rfl⟩ := hts.exists_cons
  exact hf _

/-- Looking for the end token. -/
theorem settled_isAtEnd_bind {f : Bool → Rule α} (hts : Ended ts)
    (hf : ∀ t more, ts = t :: more → Settled least ts (f (decide (t.kind = .endOfInput)) ts)) :
    Settled least ts ((isAtEnd >>= f) ts) := by
  obtain ⟨t, more, rfl⟩ := hts.exists_cons
  exact hf t more rfl

/-- A token that may be left out. -/
theorem settled_accept_bind {wanted : TokenKind → Bool} {f : Option Token → Rule α}
    (hts : Ended ts) (hnone : Settled least ts (f none ts))
    (hsome : ∀ t more, ts = t :: more → Ended more → Settled (least - 1) more (f (some t) more)) :
    Settled least ts ((accept wanted >>= f) ts) := by
  obtain ⟨t, more, rfl⟩ := hts.exists_cons
  show Settled _ _ (EStateM.bind (accept wanted) f _)
  unfold EStateM.bind accept
  -- a token that is taken is not the end token, so that one still lies ahead
  by_cases hwanted : (decide (t.kind ≠ .endOfInput) && wanted t.kind) = true
  · have hkind : t.kind ≠ .endOfInput := of_decide_eq_true (Bool.and_eq_true _ _ ▸ hwanted).1
    have hmore := hsome t more rfl (hts.of_cons hkind)
    simp only [if_pos hwanted]
    exact hmore.cons hkind
  · simp only [if_neg hwanted]
    exact hnone

/-- A token that must be there. -/
theorem settled_expect_bind {kind : TokenKind} {otherwise : SyntaxErrorKind}
    {f : Token → Rule α} (hts : Ended ts)
    (hf : ∀ t more, ts = t :: more → Ended more → Settled (least - 1) more (f t more)) :
    Settled least ts ((expect kind otherwise >>= f) ts) := by
  unfold expect
  rw [bind_assoc]
  refine settled_accept_bind hts ?_ fun t more hcons hmore => ?_
  · show Settled _ ts (((peek >>= fun t => reject t otherwise) >>= f) ts)
    rw [bind_assoc]
    exact settled_peek_bind hts fun t more hcons => settled_reject t otherwise
  · exact hf t more hcons hmore

end Rule

namespace Grammar

open Rule Surface

/-- In front of at most `bound` tokens with an end token among them a rule answers, and its results
take at least `least` tokens. -/
def Settles {α : Type} (least bound : Nat) (rule : Rule α) : Prop :=
  ∀ ts : List Token, Ended ts → ts.length ≤ bound → Settled least ts (rule ts)

/-- There are no tokens with an end token among none. -/
theorem settles_zero {α : Type} {least : Nat} {rule : Rule α} : Settles least 0 rule := by
  intro ts hts hlen
  obtain ⟨t, more, rfl⟩ := hts.exists_cons
  exact absurd hlen (Nat.not_succ_le_zero _)

/-- A token of kinds that the end token is not of is not the end token. -/
theorem kind_ne_of_mem {kinds : List TokenKind} {t : Token} (h : t.kind ∈ kinds)
    (hend : TokenKind.endOfInput ∉ kinds) : t.kind ≠ .endOfInput :=
  fun heof => hend (heof ▸ h)

/-- Behind a passed token the bound still holds. -/
theorem length_le_of_cons {t : Token} {more : List Token} {bound : Nat}
    (h : (t :: more).length ≤ bound + 1) : more.length ≤ bound := Nat.le_of_succ_le_succ h

/-! ## Expressions -/

section Expressions

variable {inner : Rule Expr} {bound : Nat}

/-- Literals, names and parentheses. -/
theorem settles_primary (hinner : Settles 1 bound inner) :
    Settles 1 (bound + 1) (primary inner) := by
  intro ts hts hlen
  obtain ⟨t, more, rfl⟩ := hts.exists_cons
  by_cases hmem : t.kind ∈ primaryKinds
  · have hkind : t.kind ≠ .endOfInput := kind_ne_of_mem hmem (by decide)
    rw [primaryKinds, List.mem_cons, List.mem_cons] at hmem
    rcases hmem with hparen | hname | hliteral
    · rw [primary_of_leftParen hparen]
      have hmore := hts.of_cons hkind
      refine Settled.cons hkind (settled_bind (hinner _ hmore (length_le_of_cons hlen)) ?_)
      intro e rest hpasses _
      exact settled_expect_bind (hpasses.ended hmore) fun _ more _ _ => settled_pure _
    · rw [primary_of_identifier hname]
      exact Settled.cons hkind (settled_pure _)
    · rw [primary_of_mem_literalKinds hliteral]
      exact Settled.cons hkind (settled_pure _)
  · rw [primary_of_not_mem hmem]
    exact settled_reject _ _

/-- Operands with signs. -/
theorem settles_unary (hinner : Settles 1 bound inner) :
    Settles 1 (bound + 1) (unary inner) := by
  intro ts
  induction ts with
  | nil =>
    intro hts
    obtain ⟨_, hmem, -⟩ := hts
    cases hmem
  | cons t more ih =>
    intro hts hlen
    -- a sign is a token more, so the induction is on the tokens
    by_cases hsign : t.kind ∈ signKinds
    · have hkind : t.kind ≠ .endOfInput := kind_ne_of_mem hsign (by decide)
      have hmore := ih (hts.of_cons hkind) (Nat.le_trans (Nat.le_succ _) hlen)
      rw [unary_of_mem_signKinds hsign]
      exact Settled.cons hkind (settled_map hmore).drop
    · rw [unary_of_not_sign (by simpa using hsign)]
      exact settles_primary hinner _ hts hlen

variable {build : Expr → Token → Expr → Expr} {isOperator : TokenKind → Bool}
  {operand : Rule Expr}

/-- A chain goes on as long as its operands answer; every round takes a token, so the rounds
suffice. -/
theorem settles_chainFrom (hoperand : Settles 1 bound operand) {n : Nat} {left : Expr}
    {ts : List Token} (hts : Ended ts) (hbound : ts.length ≤ bound) (hn : ts.length ≤ n) :
    Settled 0 ts (chainFrom build isOperator operand n left ts) := by
  induction n generalizing left ts with
  | zero =>
    obtain ⟨t, more, rfl⟩ := hts.exists_cons
    exact absurd hn (Nat.not_succ_le_zero _)
  | succ n ih =>
    unfold chainFrom
    refine settled_accept_bind hts (settled_pure _) fun operator more hcons hmore => ?_
    rw [hcons, List.length_cons] at hbound hn
    have hmoreBound : more.length ≤ bound := Nat.le_of_succ_le hbound
    -- an operator and an operand are two tokens at least, for one round
    refine settled_bind (hoperand _ hmore hmoreBound) fun right rest hpasses hlen => ?_
    exact ih (hpasses.ended hmore) (by omega) (by omega)

/-- Operands joined by operators. -/
theorem settles_chain (hoperand : Settles 1 bound operand) :
    Settles 1 bound (chain build isOperator operand bound) := by
  intro ts hts hlen
  refine settled_bind (hoperand ts hts hlen) fun first rest hpasses _ => ?_
  have hrest := Nat.le_trans hpasses.length_le hlen
  exact settles_chainFrom hoperand (hpasses.ended hts) hrest hrest

/-- Assignments. -/
theorem settles_assignment (hinner : Settles 1 bound inner) :
    Settles 1 (bound + 1) (assignment inner (bound + 1)) := by
  have hor : Settles 1 (bound + 1) (logicOr inner (bound + 1)) :=
    settles_chain (settles_chain (settles_chain (settles_chain (settles_chain
      (settles_chain (settles_unary hinner))))))
  intro ts hts hlen
  unfold assignment
  refine settled_bind (hor ts hts hlen) fun target rest hpasses hleast => ?_
  refine settled_accept_bind (hpasses.ended hts) (settled_pure _) fun equals more hcons hmore => ?_
  have hmoreBound : more.length ≤ bound := by
    rw [hcons, List.length_cons] at hleast
    omega
  -- only a name may be assigned to; anything else is rejected
  cases target with
  | reference name =>
    exact settled_bind (hinner more hmore hmoreBound) fun _ _ _ _ => settled_pure _
  | _ => exact settled_reject _ _

/-- **Expressions are read or rejected**, whatever tokens are left. -/
theorem settles_expression (bound : Nat) : Settles 1 bound (expression bound) := by
  induction bound with
  | zero => exact settles_zero
  | succ bound ih => exact settles_assignment ih

end Expressions

/-! ## Clauses -/

section Clauses

variable {expr : Rule Expr} {bound : Nat}

/-- An expression and the token behind it. -/
theorem settles_expr_expect {α : Type} {kind : TokenKind} {otherwise : SyntaxErrorKind}
    {f : Expr → Rule α} (hexpr : Settles 1 bound expr) (hf : ∀ e, Settles 0 bound (f e)) :
    Settles 1 bound (do
      let e ← expr
      let _ ← expect kind otherwise
      f e) := by
  intro ts hts hlen
  refine settled_bind (hexpr ts hts hlen) fun e rest hpasses _ => ?_
  refine settled_expect_bind (hpasses.ended hts) fun _ more hcons hmore => ?_
  have hrest := Nat.le_trans hpasses.length_le hlen
  rw [hcons] at hrest
  exact hf e more hmore (Nat.le_of_succ_le hrest)

/-- An expression in parentheses. -/
theorem settles_condition {α : Type} {unopened unclosed : SyntaxErrorKind} {f : Expr → Rule α}
    (hexpr : Settles 1 bound expr) (hf : ∀ e, Settles 0 bound (f e)) :
    Settles 1 bound (do
      let _ ← expect .leftParen unopened
      let e ← expr
      let _ ← expect .rightParen unclosed
      f e) := by
  intro ts hts hlen
  refine settled_expect_bind hts fun _ more hcons hmore => ?_
  rw [hcons] at hlen
  exact (settles_expr_expect hexpr hf more hmore (Nat.le_of_succ_le hlen)).drop

/-- An expression that may be left out, and the token behind it. -/
theorem settles_optionalBefore_expect {α : Type} {kind : TokenKind}
    {otherwise : SyntaxErrorKind} {f : Option Expr → Rule α} (hexpr : Settles 1 bound expr)
    (hf : ∀ e, Settles 0 bound (f e)) :
    Settles 0 bound (do
      let e ← optionalBefore kind expr
      let _ ← expect kind otherwise
      f e) := by
  intro ts hts hlen
  have hoptional : Settled 0 ts (optionalBefore kind expr ts) := by
    refine settled_check_bind hts fun b => ?_
    -- the token behind the expression decides whether there is one
    cases b with
    | true => exact settled_pure _
    | false => exact (settled_map (hexpr ts hts hlen)).drop
  refine settled_bind hoptional fun e rest hpasses _ => ?_
  refine settled_expect_bind (hpasses.ended hts) fun _ more hcons hmore => ?_
  have hrest := Nat.le_trans hpasses.length_le hlen
  rw [hcons] at hrest
  exact hf e more hmore (Nat.le_of_succ_le hrest)

/-- Expression statements. -/
theorem settles_expressionStatement (hexpr : Settles 1 bound expr) :
    Settles 1 bound (expressionStatement expr) :=
  settles_expr_expect hexpr fun _ _ _ _ => settled_pure _

/-- Print statements, behind their word. -/
theorem settles_printStatement (hexpr : Settles 1 bound expr) :
    Settles 1 bound (printStatement expr) :=
  settles_expr_expect hexpr fun _ _ _ _ => settled_pure _

/-- Variable declarations, behind their word. -/
theorem settles_variableDeclaration (hexpr : Settles 1 bound expr) :
    Settles 1 bound (variableDeclaration expr) := by
  intro ts hts hlen
  refine settled_expect_bind hts fun name more hcons hmore => ?_
  rw [hcons] at hlen
  have hend : ∀ (o : Option Expr) rest, Ended rest → Settled 0 rest
      ((do let _ ← expect .semicolon .unendedDeclaration
           return .declaration name o : Rule Stmt) rest) :=
    fun o rest hrest => settled_expect_bind hrest fun _ _ _ _ => settled_pure _
  refine settled_accept_bind hmore ?_ fun equals rest hcons' hrest => ?_
  · exact hend none more hmore
  · have hbound : rest.length ≤ bound := by
      rw [hcons'] at hlen
      exact Nat.le_of_succ_le (Nat.le_of_succ_le hlen)
    exact settled_bind (settled_map (hexpr rest hrest hbound)) fun o final hpasses _ =>
      hend o final (hpasses.ended hrest)

/-- First clauses of `for` loops. -/
theorem settles_forInitializer (hexpr : Settles 1 bound expr) :
    Settles 1 bound (forInitializer expr) := by
  intro ts hts hlen
  obtain ⟨t, more, rfl⟩ := hts.exists_cons
  have hmoreBound : more.length ≤ bound := Nat.le_of_succ_le hlen
  by_cases hsemicolon : t.kind = .semicolon
  · rw [forInitializer_of_semicolon hsemicolon]
    exact Settled.cons (by simp [hsemicolon]) (settled_pure _)
  · by_cases hvar : t.kind = .keyword .varWord
    · have hkind : t.kind ≠ .endOfInput := by simp [hvar]
      have hmore := hts.of_cons hkind
      rw [forInitializer_of_var hvar]
      exact Settled.cons hkind
        (settled_map (settles_variableDeclaration hexpr more hmore hmoreBound)).drop
    · rw [forInitializer_of_other hsemicolon hvar]
      exact settled_map (settles_expressionStatement hexpr _ hts hlen)

end Clauses

/-! ## Statements -/

section Statements

variable {expr : Rule Expr} {body item : Rule Stmt} {bound : Nat}

/-- Loops, behind `while`. -/
theorem settles_whileStatement (hexpr : Settles 1 bound expr) (hbody : Settles 1 bound body) :
    Settles 1 bound (whileStatement expr body) := by
  refine settles_condition hexpr fun condition ts hts hlen => ?_
  exact settled_bind (hbody ts hts hlen) fun _ _ _ _ => settled_pure _

/-- Conditionals, behind `if`. -/
theorem settles_ifStatement (hexpr : Settles 1 bound expr) (hbody : Settles 1 bound body) :
    Settles 1 bound (ifStatement expr body) := by
  refine settles_condition hexpr fun condition ts hts hlen => ?_
  refine settled_bind (hbody ts hts hlen) fun thenBranch rest hpasses _ => ?_
  refine settled_accept_bind (hpasses.ended hts) (settled_pure _) fun _ more hcons hmore => ?_
  have hrest := Nat.le_trans hpasses.length_le hlen
  rw [hcons] at hrest
  exact settled_bind (hbody more hmore (Nat.le_of_succ_le hrest)) fun _ _ _ _ => settled_pure _

/-- Loops, behind `for`. -/
theorem settles_forStatement (hexpr : Settles 1 bound expr) (hbody : Settles 1 bound body) :
    Settles 1 bound (forStatement expr body) := by
  intro ts hts hlen
  refine settled_expect_bind hts fun _ more hcons hmore => ?_
  rw [hcons] at hlen
  have hmoreBound : more.length ≤ bound := Nat.le_of_succ_le hlen
  refine settled_bind (settles_forInitializer hexpr more hmore hmoreBound) ?_
  intro initializer rest hpasses _
  have hrest := Nat.le_trans hpasses.length_le hmoreBound
  refine settles_optionalBefore_expect hexpr (fun condition => ?_) rest (hpasses.ended hmore) hrest
  refine settles_optionalBefore_expect hexpr fun increment ts hts hlen => ?_
  exact settled_bind (hbody ts hts hlen) fun _ _ _ _ => settled_pure _

/-- Declarations and statements. -/
theorem settles_declarationOr (hexpr : Settles 1 bound expr) (hbody : Settles 1 bound body) :
    Settles 1 bound (declarationOr expr body) := by
  intro ts hts hlen
  refine settled_accept_bind hts (hbody ts hts hlen) fun _ more hcons hmore => ?_
  rw [hcons] at hlen
  exact (settles_variableDeclaration hexpr more hmore (Nat.le_of_succ_le hlen)).drop

/-- The declarations of a block go on as long as each of them answers. -/
theorem settles_declarationsOnto (hitem : Settles 1 bound item) {n : Nat} {found : List Stmt}
    {ts : List Token} (hts : Ended ts) (hbound : ts.length ≤ bound) (hn : ts.length ≤ n) :
    Settled 0 ts (declarationsOnto item n found ts) := by
  induction n generalizing found ts with
  | zero =>
    obtain ⟨t, more, rfl⟩ := hts.exists_cons
    exact absurd hn (Nat.not_succ_le_zero _)
  | succ n ih =>
    unfold declarationsOnto
    refine settled_check_bind hts fun closed => settled_isAtEnd_bind hts fun t more _ => ?_
    split
    · exact settled_pure _
    · -- a declaration is a token at least, for one round
      refine settled_bind (hitem ts hts hbound) fun s rest hpasses hlen => ?_
      exact ih (hpasses.ended hts) (by omega) (by omega)

/-- Blocks, behind their opening brace. -/
theorem settles_block (hitem : Settles 1 bound item) {n : Nat} (hn : bound ≤ n) :
    Settles 1 bound (block item n) := by
  intro ts hts hlen
  refine settled_bind (settles_declarationsOnto hitem hts hlen (Nat.le_trans hlen hn)) ?_
  intro found rest hpasses _
  exact settled_expect_bind (hpasses.ended hts) fun _ _ _ _ => settled_pure _

/-- Statements of any form. -/
theorem settles_statementOver (hexpr : Settles 1 (bound + 1) expr) (hbody : Settles 1 bound body) :
    Settles 1 (bound + 1) (statementOver expr body (bound + 1)) := by
  have hexpr' : Settles 1 bound expr := fun ts hts hlen => hexpr ts hts (Nat.le_succ_of_le hlen)
  intro ts hts hlen
  obtain ⟨t, more, rfl⟩ := hts.exists_cons
  have hmoreBound : more.length ≤ bound := length_le_of_cons hlen
  by_cases hmem : t.kind ∈ leaders
  · have hkind : t.kind ≠ .endOfInput := kind_ne_of_mem hmem (by decide)
    have hmore := hts.of_cons hkind
    simp only [leaders, List.mem_cons, List.not_mem_nil, or_false] at hmem
    -- the leading word is a token more than the rest of the statement
    rcases hmem with hword | hword | hword | hword | hword
    · rw [statementOver_of_for hword]
      exact Settled.cons hkind (settles_forStatement hexpr' hbody more hmore hmoreBound).drop
    · rw [statementOver_of_if hword]
      exact Settled.cons hkind (settles_ifStatement hexpr' hbody more hmore hmoreBound).drop
    · rw [statementOver_of_print hword]
      exact Settled.cons hkind (settles_printStatement hexpr' more hmore hmoreBound).drop
    · rw [statementOver_of_while hword]
      exact Settled.cons hkind (settles_whileStatement hexpr' hbody more hmore hmoreBound).drop
    · rw [statementOver_of_leftBrace hword]
      have hitem := settles_declarationOr hexpr' hbody
      exact Settled.cons hkind
        (settled_map (settles_block hitem (Nat.le_succ bound) more hmore hmoreBound)).drop
  · rw [statementOver_of_not_mem hmem]
    exact settles_expressionStatement hexpr _ hts hlen

end Statements

/-- **Statements are read or rejected**, whatever tokens are left. -/
theorem settles_statement (bound : Nat) : Settles 1 bound (statement bound) := by
  induction bound with
  | zero => exact settles_zero
  | succ bound ih => exact settles_statementOver (settles_expression (bound + 1)) ih

/-- **Declarations are read or rejected**, whatever tokens are left. -/
theorem settles_declaration (bound : Nat) : Settles 1 bound (declaration bound) :=
  settles_declarationOr (settles_expression bound) (settles_statement bound)

/-- The declarations of a program go on as long as each of them answers. -/
theorem settles_programOnto (bound : Nat) (found : List Stmt) :
    Settles 0 bound (programOnto bound found) := by
  induction bound generalizing found with
  | zero => exact settles_zero
  | succ bound ih =>
    intro ts hts hlen
    unfold programOnto
    refine settled_isAtEnd_bind hts fun t more _ => ?_
    split
    · exact settled_pure _
    · -- a declaration is a token at least, for one round
      refine settled_bind (settles_declaration _ ts hts hlen) fun s rest hpasses hleast => ?_
      exact ih (s :: found) rest (hpasses.ended hts) (by omega)

/-- **Programs are read or rejected.** -/
theorem settles_program (bound : Nat) : Settles 0 bound (program bound) :=
  settles_programOnto bound []

end Grammar

end Lox
