import Lox.Proofs.Grammar.Expressions

/-! # Reading clauses

The parts of statements that hold no statements themselves succeed exactly on their derivations:

* **`condition_bind_eq_ok_iff`** — a condition in parentheses;
* **`optionalBefore_expect_bind_eq_ok_iff`** — an expression that may be left out;
* **`variableDeclaration_eq_ok_iff`**, **`expressionStatement_eq_ok_iff`**,
  **`forInitializer_eq_ok_iff`** — declarations, expression statements, and the first clause of a
  `for` loop. -/

namespace Lox.Surface

open Grammar Rule

/-! ## First tokens -/

/-- The kinds of tokens that an expression starts with. -/
def expressionStarts : List TokenKind := signKinds ++ primaryKinds

/-- An expression has a first token, of a kind that expressions start with. -/
theorem ExprTree.exists_tokens_eq_cons {form : ExprForm} (t : ExprTree form) :
    ∃ first rest, t.tokens = first :: rest ∧ first.kind ∈ expressionStarts := by
  induction t with
  | assign name equals value ih => exact ⟨_, _, rfl, by simp [expressionStarts, primaryKinds]⟩
  | plain e ih => exact ih
  | operand e ih => exact ih
  | join left operator right ihLeft ihRight =>
    obtain ⟨first, rest, htokens, hkind⟩ := ihLeft
    exact ⟨first, rest ++ operator.token :: right.tokens, by simp [tokens, htokens], hkind⟩
  | signed sign e ih => exact ⟨_, _, rfl, List.mem_append_left _ sign.kind_mem⟩
  | unsigned e ih => exact ih
  | literal t =>
    exact ⟨_, _, rfl, List.mem_append_right _
      (List.mem_cons_of_mem _ (List.mem_cons_of_mem _ t.kind_mem))⟩
  | reference t => exact ⟨_, _, rfl, by simp [expressionStarts, primaryKinds]⟩
  | group opening inner closing ih =>
    exact ⟨_, _, rfl, by simp [expressionStarts, primaryKinds]⟩

/-! ## Clauses -/

section Clauses

variable {α : Type} {expr : Rule Expr} {bound : Nat} {ts rest : List Token}

/-- An expression in parentheses. -/
theorem condition_bind_eq_ok_iff (hexpr : Reads .assignment bound expr)
    (hts : ts.length ≤ bound) {unopened unclosed : SyntaxErrorKind} {f : Expr → Rule α} {a : α} :
    (do let _ ← expect .leftParen unopened
        let e ← expr
        let _ ← expect .rightParen unclosed
        f e : Rule α) ts = .ok a rest ↔
      ∃ opening : Mark .leftParen, ∃ e : Expression, ∃ closing : Mark .rightParen, ∃ more,
        ts = opening.token :: (e.tokens ++ closing.token :: more) ∧
          f e.expr more = .ok a rest := by
  rw [expect_bind_eq_ok_iff (by decide)]
  constructor
  · rintro ⟨opening, mid, rfl, h⟩
    have hmid : mid.length ≤ bound := Nat.le_trans (Nat.le_succ _) hts
    rw [expr_expect_bind_eq_ok_iff hexpr hmid (by decide) (by decide)] at h
    obtain ⟨e, closing, more, rfl, h⟩ := h
    exact ⟨opening, e, closing, more, rfl, h⟩
  · rintro ⟨opening, e, closing, more, rfl, h⟩
    have hmid : (e.tokens ++ closing.token :: more).length ≤ bound :=
      Nat.le_trans (Nat.le_succ _) hts
    exact ⟨opening, _, rfl, (expr_expect_bind_eq_ok_iff hexpr hmid (by decide) (by decide)).2
      ⟨e, closing, more, rfl, h⟩⟩

/-- An expression that may be left out in front of a token that must follow it. -/
theorem optionalBefore_expect_bind_eq_ok_iff (hexpr : Reads .assignment bound expr)
    (hts : ts.length ≤ bound) {kind : TokenKind} (hend : kind ≠ .endOfInput)
    (hkind : kind ∉ ExprForm.assignment.absorbs) (hstart : kind ∉ expressionStarts)
    {otherwise : SyntaxErrorKind} {f : Option Expr → Rule α} {a : α} :
    (do let e ← optionalBefore kind expr
        let _ ← expect kind otherwise
        f e : Rule α) ts = .ok a rest ↔
      ∃ e : Option Expression, ∃ m : Mark kind, ∃ more,
        ts = optionalTokens e ++ m.token :: more ∧
          f (e.map ExprTree.expr) more = .ok a rest := by
  rw [bind_eq_ok_iff]
  unfold optionalBefore
  simp only [check_mark_bind_eq_ok_iff hend, expect_bind_eq_ok_iff hend]
  constructor
  · rintro ⟨o, mid, ⟨t, more, hmore, ho⟩, m, final, rfl, h⟩
    -- if the token behind the expression is next, the expression was left out
    by_cases hcheck : t.kind = kind
    · rw [if_pos (by simpa using hcheck), pure_eq_ok_iff] at ho
      obtain ⟨rfl, rfl⟩ := ho
      exact ⟨none, m, final, rfl, h⟩
    · rw [if_neg (by simpa using hcheck)] at ho
      obtain ⟨e, he, rfl⟩ := map_eq_ok_iff.1 ho
      obtain ⟨e, rfl, rfl, -⟩ := (hexpr _ hts _ _).1 he
      exact ⟨some e, m, final, rfl, h⟩
  · rintro ⟨e, m, more, rfl, h⟩
    cases e with
    | none =>
      refine ⟨none, m.token :: more, ⟨m.token, more, rfl, ?_⟩, m, more, rfl, h⟩
      rw [if_pos (by simp)]
      rfl
    | some e =>
      -- the expression starts with a token of its own, so it is not left out
      obtain ⟨first, others, htokens, hfirst⟩ := e.exists_tokens_eq_cons
      have hne : first.kind ≠ kind := fun heq => hstart (heq ▸ hfirst)
      have hbefore := ExprForm.endsBefore_assignment_cons hkind m more
      refine ⟨some e.expr, m.token :: more, ⟨first, others ++ m.token :: more, ?_, ?_⟩, m, more,
        rfl, h⟩
      · simp [optionalTokens, htokens]
      · rw [if_neg (by simpa using hne)]
        exact map_eq_ok_iff.2 ⟨_, hexpr.eq_ok e hts hbefore, rfl⟩

/-- Expression statements are read. -/
theorem expressionStatement_eq_ok_iff (hexpr : Reads .assignment bound expr)
    (hts : ts.length ≤ bound) {s : Stmt} :
    expressionStatement expr ts = .ok s rest ↔
      ∃ t : ExpressionStatement, ts = t.tokens ++ rest ∧ t.desugar = s := by
  unfold expressionStatement
  rw [expr_expect_bind_eq_ok_iff hexpr hts (by decide) (by decide)]
  constructor
  · rintro ⟨e, closing, more, rfl, h⟩
    rw [pure_eq_ok_iff] at h
    obtain ⟨rfl, rfl⟩ := h
    exact ⟨⟨e, closing⟩, by simp [ExpressionStatement.tokens], rfl⟩
  · rintro ⟨⟨e, closing⟩, rfl, rfl⟩
    exact ⟨e, closing, rest, by simp [ExpressionStatement.tokens], rfl⟩

/-- Print statements are read behind their word. -/
theorem printStatement_eq_ok_iff (hexpr : Reads .assignment bound expr)
    (hts : ts.length ≤ bound) {s : Stmt} :
    printStatement expr ts = .ok s rest ↔
      ∃ e : Expression, ∃ closing : Mark .semicolon,
        ts = e.tokens ++ closing.token :: rest ∧ .print e.expr = s := by
  unfold printStatement
  rw [expr_expect_bind_eq_ok_iff hexpr hts (by decide) (by decide)]
  constructor
  · rintro ⟨e, closing, more, rfl, h⟩
    rw [pure_eq_ok_iff] at h
    obtain ⟨rfl, rfl⟩ := h
    exact ⟨e, closing, rfl, rfl⟩
  · rintro ⟨e, closing, rfl, rfl⟩
    exact ⟨e, closing, rest, rfl, rfl⟩

/-- Variable declarations are read behind their word. -/
theorem variableDeclaration_eq_ok_iff (hexpr : Reads .assignment bound expr)
    (hts : ts.length ≤ bound) (word : Mark (.keyword .varWord)) {s : Stmt} :
    variableDeclaration expr ts = .ok s rest ↔
      ∃ d : VariableDeclaration, d.word = word ∧ word.token :: ts = d.tokens ++ rest ∧
        d.desugar = s := by
  unfold variableDeclaration
  rw [expect_bind_eq_ok_iff (by decide)]
  constructor
  · rintro ⟨name, mid, rfl, h⟩
    have hmid : mid.length ≤ bound := Nat.le_trans (Nat.le_succ _) hts
    rw [accept_mark_bind_eq_ok_iff (by decide)] at h
    rcases h with ⟨equals, more, rfl, h⟩ | ⟨-, h⟩
    · -- with an initializer
      have hmore : more.length ≤ bound := Nat.le_trans (Nat.le_succ _) hmid
      obtain ⟨o, final, ho, h'⟩ := bind_eq_ok_iff.1 h
      obtain ⟨e, he, rfl⟩ := map_eq_ok_iff.1 ho
      obtain ⟨e, rfl, rfl, -⟩ := (hexpr _ hmore _ _).1 he
      rw [expect_bind_eq_ok_iff (by decide)] at h'
      obtain ⟨closing, final', rfl, h'⟩ := h'
      rw [pure_eq_ok_iff] at h'
      obtain ⟨rfl, rfl⟩ := h'
      exact ⟨⟨word, name, some (equals, e), closing⟩, rfl,
        by simp [VariableDeclaration.tokens], rfl⟩
    · -- without one
      obtain ⟨o, final, ho, h'⟩ := bind_eq_ok_iff.1 h
      rw [pure_eq_ok_iff] at ho
      obtain ⟨rfl, rfl⟩ := ho
      rw [expect_bind_eq_ok_iff (by decide)] at h'
      obtain ⟨closing, final', rfl, h'⟩ := h'
      rw [pure_eq_ok_iff] at h'
      obtain ⟨rfl, rfl⟩ := h'
      exact ⟨⟨word, name, none, closing⟩, rfl, by simp [VariableDeclaration.tokens], rfl⟩
  · rintro ⟨⟨word', name, initializer, closing⟩, rfl, htokens, rfl⟩
    rw [VariableDeclaration.tokens, List.cons_append, List.cons.injEq] at htokens
    obtain ⟨-, rfl⟩ := htokens
    refine ⟨name, _, rfl, ?_⟩
    rw [accept_mark_bind_eq_ok_iff (by decide)]
    cases initializer with
    | none =>
      refine .inr ⟨by simp, bind_eq_ok_iff.2 ⟨none, _, rfl, ?_⟩⟩
      exact (expect_bind_eq_ok_iff (by decide)).2 ⟨closing, rest, rfl, rfl⟩
    | some initializer =>
      obtain ⟨equals, e⟩ := initializer
      have hbefore := ExprForm.endsBefore_assignment_cons (by decide) closing rest
      have hlen : (e.tokens ++ closing.token :: rest).length ≤ bound := by
        simp only [List.length_append, List.length_cons, List.length_nil] at hts ⊢
        omega
      refine .inl ⟨equals, e.tokens ++ closing.token :: rest, by simp, ?_⟩
      refine bind_eq_ok_iff.2 ⟨some e.expr, closing.token :: rest, ?_, ?_⟩
      · exact map_eq_ok_iff.2 ⟨_, hexpr.eq_ok e hlen hbefore, rfl⟩
      · exact (expect_bind_eq_ok_iff (by decide)).2 ⟨closing, rest, rfl, rfl⟩

/-- A semicolon alone is an initializer that is left out. -/
theorem forInitializer_of_semicolon {t : Token} (h : t.kind = .semicolon) :
    forInitializer expr (t :: rest) = .ok none rest := by
  unfold forInitializer
  simp only [peek_bind_cons, h]
  exact skip_bind_cons (by simp [h])

/-- An initializer that opens with `var` is a variable declaration. -/
theorem forInitializer_of_var {t : Token} (h : t.kind = .keyword .varWord) :
    forInitializer expr (t :: rest) = (some <$> variableDeclaration expr) rest := by
  unfold forInitializer
  simp only [peek_bind_cons, h]
  exact skip_bind_cons (by simp [h])

/-- Any other initializer is an expression statement. -/
theorem forInitializer_of_other {t : Token} (h : t.kind ≠ .semicolon)
    (h' : t.kind ≠ .keyword .varWord) :
    forInitializer expr (t :: rest) = (some <$> expressionStatement expr) (t :: rest) := by
  unfold forInitializer
  simp only [peek_bind_cons]

/-- Initializers of `for` loops are read. -/
theorem forInitializer_eq_ok_iff (hexpr : Reads .assignment bound expr)
    (hts : ts.length ≤ bound) {o : Option Stmt} :
    forInitializer expr ts = .ok o rest ↔
      ∃ i : ForInitializer, ts = i.tokens ++ rest ∧ i.desugar = o := by
  constructor
  · intro h
    cases ts with
    | nil => cases h
    | cons t more =>
      have hmore : more.length ≤ bound := Nat.le_trans (Nat.le_succ _) hts
      -- the first token tells the three forms apart
      by_cases hsemicolon : t.kind = .semicolon
      · rw [forInitializer_of_semicolon hsemicolon] at h
        cases h
        exact ⟨.absent (.ofKind hsemicolon), rfl, rfl⟩
      · by_cases hvar : t.kind = .keyword .varWord
        · rw [forInitializer_of_var hvar, map_eq_ok_iff] at h
          obtain ⟨s, hs, rfl⟩ := h
          obtain ⟨d, -, htokens, rfl⟩ :=
            (variableDeclaration_eq_ok_iff hexpr hmore (.ofKind hvar)).1 hs
          exact ⟨.declaration d, htokens, rfl⟩
        · rw [forInitializer_of_other hsemicolon hvar, map_eq_ok_iff] at h
          obtain ⟨s, hs, rfl⟩ := h
          obtain ⟨e, htokens, rfl⟩ := (expressionStatement_eq_ok_iff hexpr hts).1 hs
          exact ⟨.expression e, htokens, rfl⟩
  · rintro ⟨i, rfl, rfl⟩
    cases i with
    | absent closing => exact forInitializer_of_semicolon closing.kind_token
    | declaration d =>
      have hlen : (d.tokens.tail ++ rest).length ≤ bound := Nat.le_trans (Nat.le_succ _) hts
      rw [show (ForInitializer.declaration d).tokens ++ rest =
        d.word.token :: (d.tokens.tail ++ rest) from rfl, forInitializer_of_var (by simp),
        map_eq_ok_iff]
      exact ⟨_, (variableDeclaration_eq_ok_iff hexpr hlen d.word).2 ⟨d, rfl, rfl, rfl⟩, rfl⟩
    | expression e =>
      have hread := (expressionStatement_eq_ok_iff hexpr hts).2 ⟨e, rfl, rfl⟩
      obtain ⟨first, others, htokens, hfirst⟩ := e.inner.exists_tokens_eq_cons
      have hcons : (ForInitializer.expression e).tokens ++ rest =
          first :: (others ++ e.closing.token :: rest) := by
        simp [ForInitializer.tokens, ExpressionStatement.tokens, htokens]
      -- an expression starts with none of the tokens of the other two forms
      have hsemicolon : first.kind ≠ .semicolon := by
        intro heq
        rw [heq] at hfirst
        exact absurd hfirst (by decide)
      have hvar : first.kind ≠ .keyword .varWord := by
        intro heq
        rw [heq] at hfirst
        exact absurd hfirst (by decide)
      rw [hcons] at hread ⊢
      rw [forInitializer_of_other hsemicolon hvar]
      exact map_eq_ok_iff.2 ⟨_, hread, rfl⟩

end Clauses

end Lox.Surface
