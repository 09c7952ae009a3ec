import Lox.Proofs.Grammar.Reading

/-! # A cursor that is told anything

The rules of the grammar are written to be run one inside the other, but each of them can also be
run on its own, wherever the cursor stands and whatever was rejected before. As long as there is an
end token among the tokens, everything that a cursor can be told is answered, or rejected with a
syntax error. The cursor never moves back and never passes the first end token, and a rule for an
expression, a statement or a declaration that answers has taken a token.

* **`Cursor.Call`**, **`Cursor.perform`** — what a cursor can be told, and what it does then;
* **`Cursor.Visited`** — the cursors that this leads to;
* **`Cursor.OnTrack`** — a cursor stands in front of the first end token, or at it;
* **`Cursor.Advances`** — an answer or a syntax error, and where the cursor stands then;
* **`Cursor.Visited.perform_answers`** — whatever a visited cursor is told is answered like that. -/

namespace Lox

namespace Grammar

open Rule

/-! ## Rules on their own -/

/-- The rules for expressions. -/
inductive ExprRule
  | expression | assignment | logicOr | logicAnd | equality | comparison | term | factor | unary
  | primary
deriving DecidableEq, Repr

/-- A rule for expressions, in front of at most `bound` tokens. -/
def ExprRule.rule (bound : Nat) : ExprRule → Rule Expr
  | expression => Grammar.expression bound
  | assignment => Grammar.assignment (Grammar.expression bound) bound
  | logicOr => Grammar.logicOr (Grammar.expression bound) bound
  | logicAnd => Grammar.logicAnd (Grammar.expression bound) bound
  | equality => Grammar.equality (Grammar.expression bound) bound
  | comparison => Grammar.comparison (Grammar.expression bound) bound
  | term => Grammar.term (Grammar.expression bound) bound
  | factor => Grammar.factor (Grammar.expression bound) bound
  | unary => Grammar.unary (Grammar.expression bound)
  | primary => Grammar.primary (Grammar.expression bound)

/-- The rules for statements. Those that are named for a word start behind it. -/
inductive StmtRule
  | declaration | statement | variableDeclaration | forStatement | ifStatement | whileStatement
  | printStatement | expressionStatement
deriving DecidableEq, Repr

/-- A rule for statements, in front of at most `bound` tokens. -/
def StmtRule.rule (bound : Nat) : StmtRule → Rule Stmt
  | declaration => Grammar.declaration bound
  | statement => Grammar.statement bound
  | variableDeclaration => Grammar.variableDeclaration (Grammar.expression bound)
  | forStatement => Grammar.forStatement (Grammar.expression bound) (Grammar.statement bound)
  | ifStatement => Grammar.ifStatement (Grammar.expression bound) (Grammar.statement bound)
  | whileStatement => Grammar.whileStatement (Grammar.expression bound) (Grammar.statement bound)
  | printStatement => Grammar.printStatement (Grammar.expression bound)
  | expressionStatement => Grammar.expressionStatement (Grammar.expression bound)

/-- In front of fewer tokens a rule answers as well. -/
theorem Settles.of_le {α : Type} {least bound bound' : Nat} {rule : Rule α}
    (h : Settles least bound' rule) (hle : bound ≤ bound') : Settles least bound rule :=
  fun ts hts hlen => h ts hts (Nat.le_trans hlen hle)

/-- **Every rule for expressions settles**, and takes a token at least. -/
theorem settles_exprRule (bound : Nat) (r : ExprRule) : Settles 1 bound (r.rule bound) := by
  cases bound with
  | zero => exact settles_zero
  | succ bound =>
    -- the expressions inside stand behind a token of their own
    have hinner : Settles 1 bound (Grammar.expression (bound + 1)) :=
      (settles_expression (bound + 1)).of_le (Nat.le_succ bound)
    have hunary : Settles 1 (bound + 1) (ExprRule.unary.rule (bound + 1)) := settles_unary hinner
    -- each level of operators joins operands of the level below
    have hfactor : Settles 1 (bound + 1) (ExprRule.factor.rule (bound + 1)) := settles_chain hunary
    have hterm : Settles 1 (bound + 1) (ExprRule.term.rule (bound + 1)) := settles_chain hfactor
    have hcomparison : Settles 1 (bound + 1) (ExprRule.comparison.rule (bound + 1)) :=
      settles_chain hterm
    have hequality : Settles 1 (bound + 1) (ExprRule.equality.rule (bound + 1)) :=
      settles_chain hcomparison
    have hand : Settles 1 (bound + 1) (ExprRule.logicAnd.rule (bound + 1)) :=
      settles_chain hequality
    cases r with
    | expression => exact settles_expression (bound + 1)
    | assignment => exact settles_assignment hinner
    | logicOr => exact settles_chain hand
    | logicAnd => exact hand
    | equality => exact hequality
    | comparison => exact hcomparison
    | term => exact hterm
    | factor => exact hfactor
    | unary => exact hunary
    | primary => exact settles_primary hinner

/-- **Every rule for statements settles**, and takes a token at least. -/
theorem settles_stmtRule (bound : Nat) (r : StmtRule) : Settles 1 bound (r.rule bound) := by
  have hexpr := settles_expression bound
  have hbody := settles_statement bound
  cases r with
  | declaration => exact settles_declaration bound
  | statement => exact hbody
  | variableDeclaration => exact settles_variableDeclaration hexpr
  | forStatement => exact settles_forStatement hexpr hbody
  | ifStatement => exact settles_ifStatement hexpr hbody
  | whileStatement => exact settles_whileStatement hexpr hbody
  | printStatement => exact settles_printStatement hexpr
  | expressionStatement => exact settles_expressionStatement hexpr

/-- A single expression up to the end token. -/
theorem settles_wholeExpression (bound : Nat) : Settles 1 bound (wholeExpression bound) := by
  intro ts hts hlen
  refine settled_bind (settles_expression bound ts hts hlen) fun e rest hpasses _ => ?_
  have hrest := hpasses.ended hts
  refine settled_isAtEnd_bind hrest fun t more _ => ?_
  split
  · exact settled_pure e
  · exact settled_peek_bind hrest fun t' more' _ => settled_reject t' _

end Grammar

namespace Rule

variable {ts : List Token}

/-- Looking at the next token takes nothing. -/
theorem settled_peek (hts : Ended ts) : Settled 0 ts (peek ts) := by
  have h : Settled 0 ts ((peek >>= pure) ts) := settled_peek_bind hts fun t _ _ => settled_pure t
  rwa [bind_pure] at h

/-- Looking for the end token takes nothing. -/
theorem settled_isAtEnd (hts : Ended ts) : Settled 0 ts (isAtEnd ts) := by
  have h : Settled 0 ts ((isAtEnd >>= pure) ts) :=
    settled_isAtEnd_bind hts fun _ _ _ => settled_pure _
  rwa [bind_pure] at h

/-- Looking for a token of some kinds takes nothing. -/
theorem settled_check (hts : Ended ts) (wanted : TokenKind → Bool) :
    Settled 0 ts (check wanted ts) := by
  have h : Settled 0 ts ((check wanted >>= pure) ts) :=
    settled_check_bind hts fun b => settled_pure b
  rwa [bind_pure] at h

/-- A token that may be left out. -/
theorem settled_accept (hts : Ended ts) (wanted : TokenKind → Bool) :
    Settled 0 ts (accept wanted ts) := by
  have h : Settled 0 ts ((accept wanted >>= pure) ts) :=
    settled_accept_bind hts (settled_pure none) fun t _ _ _ => settled_pure (some t)
  rwa [bind_pure] at h

/-- A token that must be there. -/
theorem settled_expect (hts : Ended ts) (kind : TokenKind) (otherwise : SyntaxErrorKind) :
    Settled 0 ts (expect kind otherwise ts) := by
  have h : Settled 0 ts ((expect kind otherwise >>= pure) ts) :=
    settled_expect_bind hts fun t _ _ _ => settled_pure t
  rwa [bind_pure] at h

end Rule

namespace Cursor

/-! ## Calls -/

/-- **What a cursor can be told**, with the type of the answer. -/
inductive Call : Type → Type
  | expression (r : Grammar.ExprRule) : Call Expr
  | statement (r : Grammar.StmtRule) : Call Stmt
  | block : Call (List Stmt)
  | readProgram : Call (Option (List Stmt))
  | readExpression : Call (Option Expr)
  | resume : Call Unit
  | accept (kinds : List TokenKind) : Call Bool
  | check (kind : TokenKind) : Call Bool
  | expect (kind : TokenKind) (otherwise : SyntaxErrorKind) : Call Token
  | advance : Call Token
  | peek : Call Token
  | previous : Call Token
  | isAtEnd : Call Bool

/-- The call of a rule for an expression, a statement or a declaration, or for the inside of a
block. -/
def Call.isRule {α : Type} : Call α → Bool
  | .expression _ | .statement _ | .block => true
  | _ => false

/-- A step as a move, which is never rejected. -/
def ofStep {α : Type} (step : Step α) : Move α := fun c =>
  match step c with
  | .ok a c => .ok a c
  | .error _ c => .error .endOfTokens c

/-- **What a cursor does when it is told something.** -/
def perform {α : Type} : Call α → Move α
  | .expression r => run fun bound => r.rule bound
  | .statement r => run fun bound => r.rule bound
  | .block => run fun bound => Grammar.block (Grammar.declaration bound) bound
  | .readProgram => ofStep readProgram
  | .readExpression => ofStep readExpression
  | .resume => ofStep resume
  | .accept kinds => accept kinds
  | .check kind => run fun _ => Rule.check (· = kind)
  | .expect kind otherwise => run fun _ => Rule.expect kind otherwise
  | .advance => ofStep advance
  | .peek => run fun _ => Rule.peek
  | .previous => ofStep previous
  | .isAtEnd => run fun _ => Rule.isAtEnd

/-- **The cursors that calls lead to**, in any order, from the front of some tokens. What was
rejected leaves the cursor where it stopped. -/
inductive Visited (tokens : List Token) : Cursor → Prop
  | fresh (ledger : Ledger) : Visited tokens { tokens := tokens, ledger := ledger }
  | answered {α : Type} {c c' : Cursor} (h : Visited tokens c) (call : Call α) {a : α}
      (hcall : perform call c = .ok a c') : Visited tokens c'
  | rejected {α : Type} {c c' : Cursor} (h : Visited tokens c) (call : Call α) {e : Rejection}
      (hcall : perform call c = .error e c') : Visited tokens c'

/-! ## Places in front of the end token -/

/-- The place of the first end token. -/
def endIndex (tokens : List Token) : Nat := tokens.findIdx fun t => t.kind = .endOfInput

/-- **A cursor is on track** if there is an end token among its tokens and it has passed none. -/
structure OnTrack (c : Cursor) : Prop where
  ended : Ended c.tokens
  position_le : c.position ≤ c.tokens.length
  passes : Passes c.tokens c.rest

variable {α : Type} {c c' : Cursor} {rest tokens : List Token} {least : Nat}

/-- The end token is ahead of a cursor on track. -/
theorem OnTrack.ended_rest (h : c.OnTrack) : Ended c.rest := h.passes.ended h.ended

/-- A cursor on track is not behind the first end token. -/
theorem OnTrack.position_le_endIndex (h : c.OnTrack) : c.position ≤ endIndex c.tokens := by
  obtain ⟨passed, htokens, hpassed⟩ := h.passes
  have hlength : passed.length = c.position := by
    have hlen := congrArg List.length htokens
    have hle := h.position_le
    rw [List.length_append, Cursor.rest, List.length_drop] at hlen
    omega
  -- no token in front of the cursor is an end token
  have hnone : passed.findIdx (fun t => t.kind = .endOfInput) = passed.length := by
    rw [List.findIdx_eq_length]
    intro t ht
    simpa using hpassed t ht
  rw [endIndex, ← htokens, List.findIdx_append, hnone, if_neg (Nat.lt_irrefl _)]
  omega

/-- In front of all tokens a cursor is on track. -/
theorem onTrack_fresh (h : Ended tokens) (ledger : Ledger) :
    OnTrack { tokens := tokens, ledger := ledger } :=
  ⟨h, Nat.zero_le _, .refl tokens⟩

/-- Behind passed tokens a cursor is still on track, as many tokens further on. -/
theorem OnTrack.leave (h : c.OnTrack) (hpasses : Passes c.rest rest) :
    (c.leave rest).OnTrack ∧
      (c.leave rest).position + rest.length = c.position + c.rest.length := by
  have hsuffix : rest <:+ c.tokens := hpasses.isSuffix.trans (List.drop_suffix _ _)
  have hrest : (c.leave rest).rest = rest := rest_leave hsuffix
  have hle := hsuffix.length_le
  refine ⟨⟨h.ended, Nat.sub_le _ _, ?_⟩, ?_⟩
  · rw [hrest]
    exact h.passes.trans hpasses
  · have hposition := h.position_le
    rw [Cursor.leave, Cursor.rest, List.length_drop]
    simp only
    omega

/-! ## Moves that are answered -/

/-- **A call is answered, or rejected with a syntax error.** The cursor keeps its tokens and is on
track; it has not moved back, and moved `least` tokens forward if there is an answer. -/
def Advances (least : Nat) (c : Cursor) : EStateM.Result Rejection Cursor α → Prop
  | .ok _ c' => c'.tokens = c.tokens ∧ c'.OnTrack ∧ c.position + least ≤ c'.position
  | .error (.error _) c' => c'.tokens = c.tokens ∧ c'.OnTrack ∧ c.position ≤ c'.position
  | .error .endOfTokens _ => False

/-- A rule that settles is answered. -/
theorem advances_run {rule : Nat → Rule α} (h : c.OnTrack)
    (hrule : Rule.Settled least c.rest (rule c.rest.length c.rest)) :
    Advances least c (run rule c) := by
  unfold run
  cases hres : rule c.rest.length c.rest with
  | ok a rest =>
    rw [hres] at hrule
    obtain ⟨htrack, hposition⟩ := h.leave hrule.1
    have hlen := hrule.2
    exact ⟨rfl, htrack, by omega⟩
  | error e rest =>
    rw [hres] at hrule
    cases e with
    | error e =>
      obtain ⟨htrack, hposition⟩ := h.leave hrule
      have hlen := hrule.length_le
      exact ⟨rfl, htrack, by omega⟩
    | endOfTokens => exact hrule

/-- The token passed last is known. -/
theorem exists_previous?_eq (h : c.OnTrack) : ∃ t, c.previous? = some t := by
  obtain ⟨t, more, hcons⟩ := h.ended.exists_cons
  have hle := h.position_le
  unfold previous?
  split
  · rw [hcons]
    exact ⟨_, List.getLast?_cons⟩
  · exact ⟨_, List.getElem?_eq_getElem (by omega)⟩

/-- Asking for the token passed last. -/
theorem advances_previous (h : c.OnTrack) : Advances 0 c (ofStep previous c) := by
  obtain ⟨t, ht⟩ := exists_previous?_eq h
  unfold ofStep previous
  simp only [ht]
  exact ⟨rfl, h, Nat.le_refl _⟩

/-- Behind a token that is no end token a cursor is on track. -/
theorem OnTrack.succ (h : c.OnTrack) {t : Token} (hcons : c.rest = t :: rest)
    (ht : t.kind ≠ .endOfInput) : ({ c with position := c.position + 1 } : Cursor).OnTrack := by
  have hrest : c.tokens.drop (c.position + 1) = rest := by
    rw [← List.tail_drop]
    exact congrArg List.tail hcons
  have hlen := congrArg List.length hcons
  rw [Cursor.rest, List.length_drop, List.length_cons] at hlen
  refine ⟨h.ended, by show c.position + 1 ≤ c.tokens.length; omega, ?_⟩
  show Passes c.tokens (c.tokens.drop (c.position + 1))
  rw [hrest]
  have hpasses := h.passes
  rw [hcons] at hpasses
  exact hpasses.trans (.cons ht rest)

/-- Passing the next token. -/
theorem advances_advance (h : c.OnTrack) : Advances 0 c (ofStep advance c) := by
  obtain ⟨t, more, hcons⟩ := h.ended_rest.exists_cons
  by_cases hkind : t.kind = .endOfInput
  · have hprevious : ofStep advance c = ofStep previous c := by
      simp only [ofStep, advance, hcons, if_pos hkind]
    rw [hprevious]
    exact advances_previous h
  · have hnext : ofStep advance c = .ok t { c with position := c.position + 1 } := by
      simp only [ofStep, advance, hcons, if_neg hkind]
    rw [hnext]
    exact ⟨rfl, h.succ hcons hkind, Nat.le_succ _⟩

/-- A boundary that is found is not behind the end token. -/
theorem passes_of_landing? {t : Token} {n : Nat} {ts : List Token}
    (h : Recovery.landing? t ts = some n) : n ≤ ts.length ∧ Passes ts (ts.drop n) := by
  induction ts generalizing t n with
  | nil => cases h
  | cons next more ih =>
    unfold Recovery.landing? at h
    by_cases hboundary : Recovery.isBoundary t.kind next.kind = true
    · rw [if_pos hboundary] at h
      cases h
      exact ⟨Nat.zero_le _, .refl _⟩
    · rw [if_neg hboundary] at h
      obtain ⟨n, hn, rfl⟩ := Option.map_eq_some_iff.1 h
      -- the end token is a boundary, so this is not the end token
      have hkind : next.kind ≠ .endOfInput := by
        intro heof
        simp [Recovery.isBoundary, heof] at hboundary
      obtain ⟨hle, hpasses⟩ := ih hn
      exact ⟨Nat.succ_le_succ hle, (Passes.cons hkind more).trans hpasses⟩

/-- Recovery leaves the cursor on track, and does not move it back. -/
theorem exists_resume_onTrack (h : c.OnTrack) :
    ∃ c', resume c = .ok () c' ∧ c'.tokens = c.tokens ∧ c'.OnTrack ∧ c.position ≤ c'.position := by
  obtain ⟨t, more, hcons⟩ := h.ended_rest.exists_cons
  unfold resume
  rw [hcons]
  by_cases hkind : t.kind = .endOfInput
  · simp only [if_pos hkind]
    exact ⟨_, rfl, rfl, ⟨h.ended, h.position_le, h.passes⟩, Nat.le_refl _⟩
  · have hmore : Ended (t :: more) := hcons ▸ h.ended_rest
    obtain ⟨n, hn⟩ := Recovery.exists_landing?_eq (hmore.of_cons hkind) t
    obtain ⟨hle, hpasses⟩ := passes_of_landing? hn
    simp only [if_neg hkind, hn]
    have hnext := h.succ hcons hkind
    -- from the next token on `n` more are passed
    have hrest : c.tokens.drop (c.position + 1) = more := by
      rw [← List.tail_drop]
      exact congrArg List.tail hcons
    refine ⟨_, rfl, rfl, ⟨h.ended, ?_, ?_⟩, ?_⟩
    · have hlen := congrArg List.length hrest
      rw [List.length_drop] at hlen
      have hnextLe : c.position + 1 ≤ c.tokens.length := hnext.position_le
      show c.position + 1 + n ≤ c.tokens.length
      omega
    · show Passes c.tokens (c.tokens.drop (c.position + 1 + n))
      rw [← List.drop_drop, hrest]
      have hfront : Passes c.tokens (c.tokens.drop (c.position + 1)) := hnext.passes
      rw [hrest] at hfront
      exact hfront.trans hpasses
    · show c.position ≤ c.position + 1 + n
      omega

/-- Recovery on its own. -/
theorem advances_resume (h : c.OnTrack) : Advances 0 c (ofStep resume c) := by
  obtain ⟨c', hresume, htokens, htrack, hle⟩ := exists_resume_onTrack h
  unfold ofStep
  rw [hresume]
  exact ⟨htokens, htrack, hle⟩

/-- Reading a program. -/
theorem advances_readProgram (h : c.OnTrack) : Advances 0 c (ofStep readProgram c) := by
  have hrun : Advances 0 c (run Grammar.program c) :=
    advances_run h (Grammar.settles_program _ _ h.ended_rest (Nat.le_refl _))
  unfold ofStep readProgram
  cases hres : run Grammar.program c with
  | ok statements mid =>
    rw [hres] at hrun
    exact hrun
  | error e mid =>
    rw [hres] at hrun
    cases e with
    | endOfTokens => exact hrun.elim
    | error e =>
      -- behind the report the cursor moves on from where the rule stopped
      obtain ⟨htokens, htrack, hle⟩ := hrun
      have hreported : (mid.report e).OnTrack := ⟨htrack.ended, htrack.position_le, htrack.passes⟩
      obtain ⟨c', hresume, htokens', htrack', hle'⟩ := exists_resume_onTrack hreported
      have hmoved : (resume *> (pure none : Step (Option (List Stmt)))) (mid.report e) =
          .ok none c' := by
        show EStateM.bind resume _ (mid.report e) = _
        unfold EStateM.bind
        rw [hresume]
        rfl
      simp only [hmoved]
      exact ⟨htokens'.trans htokens, htrack', Nat.le_trans hle hle'⟩

/-- Reading a single expression. -/
theorem advances_readExpression (h : c.OnTrack) : Advances 0 c (ofStep readExpression c) := by
  have hrun : Advances 0 c (run Grammar.wholeExpression c) :=
    advances_run h (Grammar.settles_wholeExpression _ _ h.ended_rest (Nat.le_refl _)).drop
  unfold ofStep readExpression
  cases hres : run Grammar.wholeExpression c with
  | ok e mid =>
    rw [hres] at hrun
    exact hrun
  | error e mid =>
    rw [hres] at hrun
    cases e with
    | endOfTokens => exact hrun.elim
    | error e =>
      obtain ⟨htokens, htrack, hle⟩ := hrun
      exact ⟨htokens, ⟨htrack.ended, htrack.position_le, htrack.passes⟩, hle⟩

/-- Passing a token of some kinds, if there is one. -/
theorem advances_accept (h : c.OnTrack) (kinds : List TokenKind) :
    Advances 0 c (accept kinds c) := by
  unfold accept
  split
  · exact ⟨rfl, h, Nat.le_refl _⟩
  · exact advances_run h (Rule.settled_map (Rule.settled_accept h.ended_rest _))

/-- **Whatever a cursor on track is told** is answered or rejected with a syntax error, and leaves
it on track. -/
theorem advances_perform (h : c.OnTrack) (call : Call α) :
    Advances (if call.isRule then 1 else 0) c (perform call c) := by
  have hrest := h.ended_rest
  cases call with
  | expression r =>
    have hrule := Grammar.settles_exprRule c.rest.length r
    show Advances 1 c (run (fun bound => r.rule bound) c)
    exact advances_run h (hrule _ hrest (Nat.le_refl _))
  | statement r =>
    have hrule := Grammar.settles_stmtRule c.rest.length r
    show Advances 1 c (run (fun bound => r.rule bound) c)
    exact advances_run h (hrule _ hrest (Nat.le_refl _))
  | block =>
    have hblock := Grammar.settles_block (Grammar.settles_declaration c.rest.length) (Nat.le_refl _)
    show Advances 1 c (run (fun bound => Grammar.block (Grammar.declaration bound) bound) c)
    exact advances_run h (hblock _ hrest (Nat.le_refl _))
  | readProgram => exact advances_readProgram h
  | readExpression => exact advances_readExpression h
  | resume => exact advances_resume h
  | accept kinds => exact advances_accept h kinds
  | check kind =>
    show Advances 0 c (run (fun _ => Rule.check (· = kind)) c)
    exact advances_run h (Rule.settled_check hrest _)
  | expect kind otherwise =>
    show Advances 0 c (run (fun _ => Rule.expect kind otherwise) c)
    exact advances_run h (Rule.settled_expect hrest kind otherwise)
  | advance => exact advances_advance h
  | peek =>
    show Advances 0 c (run (fun _ => Rule.peek) c)
    exact advances_run h (Rule.settled_peek hrest)
  | previous => exact advances_previous h
  | isAtEnd =>
    show Advances 0 c (run (fun _ => Rule.isAtEnd) c)
    exact advances_run h (Rule.settled_isAtEnd hrest)

/-! ## Calls in any order -/

/-- A call leaves a cursor on track over the same tokens. -/
theorem Advances.onTrack {r : EStateM.Result Rejection Cursor α} (h : Advances least c r)
    (hr : (∃ a, r = .ok a c') ∨ ∃ e, r = .error e c') : c'.tokens = c.tokens ∧ c'.OnTrack := by
  rcases hr with ⟨a, rfl⟩ | ⟨e, rfl⟩
  · exact ⟨h.1, h.2.1⟩
  · cases e with
    | error e => exact ⟨h.1, h.2.1⟩
    | endOfTokens => exact h.elim

/-- **Visited cursors are on track**, over the tokens that they started with. -/
theorem Visited.onTrack (h : Visited tokens c) (hended : Ended tokens) :
    c.tokens = tokens ∧ c.OnTrack := by
  induction h with
  | fresh ledger => exact ⟨rfl, onTrack_fresh hended ledger⟩
  | answered h call hcall ih =>
    obtain ⟨htokens, htrack⟩ := (advances_perform ih.2 call).onTrack (.inl ⟨_, hcall⟩)
    exact ⟨htokens.trans ih.1, htrack⟩
  | rejected h call hcall ih =>
    obtain ⟨htokens, htrack⟩ := (advances_perform ih.2 call).onTrack (.inr ⟨_, hcall⟩)
    exact ⟨htokens.trans ih.1, htrack⟩

/-- **A cursor answers whatever it is told.** Over tokens with an end token among them, and behind
calls in any order, be they rejected or not, a call is answered or rejected with a syntax error: the
tokens never run out. The cursor keeps its tokens, does not move back and does not pass the first
end token, and behind the answer of a rule it has moved forward. -/
theorem Visited.perform_answers (h : Visited tokens c) (hended : Ended tokens) (call : Call α) :
    ∃ c', ((∃ a, perform call c = .ok a c' ∧
          (call.isRule = true → c.position < c'.position)) ∨
        ∃ e : SyntaxError, perform call c = .error (.error e) c') ∧
      c'.tokens = tokens ∧ c.position ≤ c'.position ∧ c'.position ≤ endIndex tokens := by
  obtain ⟨rfl, htrack⟩ := h.onTrack hended
  have hadvances := advances_perform htrack call
  cases hres : perform call c with
  | ok a c' =>
    rw [hres] at hadvances
    obtain ⟨htokens, htrack', hle⟩ := hadvances
    refine ⟨c', .inl ⟨a, rfl, fun hrule => ?_⟩, htokens, Nat.le_of_add_right_le hle, ?_⟩
    · rw [if_pos hrule] at hle
      exact hle
    · exact htokens ▸ htrack'.position_le_endIndex
  | error e c' =>
    rw [hres] at hadvances
    cases e with
    | endOfTokens => exact hadvances.elim
    | error e =>
      obtain ⟨htokens, htrack', hle⟩ := hadvances
      exact ⟨c', .inr ⟨e, rfl⟩, htokens, hle, htokens ▸ htrack'.position_le_endIndex⟩

/-- Behind a closing parenthesis that starts no statement, and the recovery from it, the cursor is
at the end token; there it is told to read an operand. -/
theorem Visited.perform_answers_of_parenthesis :
    let tokens : List Token :=
      [⟨.rightParen, ")", none, 1⟩, ⟨.semicolon, ";", none, 1⟩, ⟨.endOfInput, "", none, 1⟩]
    let c : Cursor := { tokens := tokens, position := 2 }
    Visited tokens c ∧
      ∃ c', ((∃ a, perform (.expression .primary) c = .ok a c' ∧ c.position < c'.position) ∨
          ∃ e : SyntaxError, perform (.expression .primary) c = .error (.error e) c') ∧
        c'.tokens = tokens ∧ 2 ≤ c'.position ∧ c'.position ≤ 2 := by
  intro tokens c
  have hended : Ended tokens := ⟨⟨.endOfInput, "", none, 1⟩, by simp [tokens], rfl⟩
  have hfresh : Visited tokens { tokens := tokens } := .fresh {}
  -- the statement is rejected where it starts, and the next boundary is the end
  have hrejected : Visited tokens { tokens := tokens } :=
    hfresh.rejected (.statement .statement) rfl
  have hvisited : Visited tokens c := hrejected.answered .resume rfl
  obtain ⟨c', hends, htokens, hle, hend⟩ := hvisited.perform_answers hended (.expression .primary)
  refine ⟨hvisited, c', hends.imp_left ?_, htokens, hle, hend⟩
  rintro ⟨a, hcall, hforward⟩
  exact ⟨a, hcall, hforward rfl⟩

end Cursor

end Lox
