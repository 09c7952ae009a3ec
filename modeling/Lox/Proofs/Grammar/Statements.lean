import Lox.Proofs.Grammar.Clauses

/-! # Reading statements

The rules for statements succeed exactly on the derivations of statements in which every `else`
belongs to the nearest conditional that can take it. A statement that could take an `else` is read
only in front of another token.

* **`Statement.Spans`** — a derivation of a statement at the front of a list of tokens;
* **`ReadsStatement`** — a rule answers the program trees of the derivations of statements, and
  nothing else;
* **`whileStatement_eq_ok_iff`**, **`ifStatement_eq_ok_iff`**, **`forStatement_eq_ok_iff`** — the
  statements that hold others are read if those are. -/

namespace Lox.Surface

open Grammar Rule

/-! ## Statements inside statements -/

/-- A derivation of a statement at the front of a list of tokens: what follows it is left, and is no
`else` that it could take. -/
structure Statement.Spans (t : Statement) (ts rest : List Token) : Prop where
  tokens_eq : ts = t.tokens ++ rest
  proper : t.Proper
  closed : t.endsOpen = true → Stops [.keyword .elseWord] rest

/-- A statement that ends in no open conditional is derived in front of whatever follows it. -/
theorem Statement.spans_of_endsOpen_eq_false {t : Statement} {ts rest : List Token}
    (htokens : ts = t.tokens ++ rest) (hproper : t.Proper) (hclosed : t.endsOpen = false) :
    t.Spans ts rest :=
  ⟨htokens, hproper, fun hopen => absurd (hclosed.symm.trans hopen) Bool.false_ne_true⟩

/-- In front of at most `bound` tokens a rule succeeds exactly on the derivations of statements,
with their program trees. -/
def ReadsStatement (bound : Nat) (rule : Rule Stmt) : Prop :=
  ∀ ts : List Token, ts.length ≤ bound → ∀ s rest, rule ts = .ok s rest ↔
    ∃ t : Statement, t.Spans ts rest ∧ t.desugar = s

section Inner

variable {expr : Rule Expr} {body : Rule Stmt} {bound : Nat} {ts rest : List Token} {s : Stmt}

/-- A statement and what is done behind it. -/
theorem body_bind_eq_ok_iff {α : Type} (hbody : ReadsStatement bound body)
    (hts : ts.length ≤ bound) {f : Stmt → Rule α} {a : α} :
    (body >>= f) ts = .ok a rest ↔
      ∃ t : Statement, ∃ mid, t.Spans ts mid ∧ f t.desugar mid = .ok a rest := by
  rw [bind_eq_ok_iff]
  constructor
  · rintro ⟨s, mid, hs, h⟩
    obtain ⟨t, ht, rfl⟩ := (hbody _ hts _ _).1 hs
    exact ⟨t, mid, ht, h⟩
  · rintro ⟨t, mid, ht, h⟩
    exact ⟨t.desugar, mid, (hbody _ hts _ _).2 ⟨t, ht, rfl⟩, h⟩

/-- A condition in parentheses, the statement it governs, and what is done behind that. -/
theorem condition_body_bind_eq_ok_iff {α : Type} (hexpr : Reads .assignment bound expr)
    (hbody : ReadsStatement bound body) (hts : ts.length ≤ bound)
    {unopened unclosed : SyntaxErrorKind} {f : Expr → Stmt → Rule α} {a : α} :
    (do let _ ← expect .leftParen unopened
        let e ← expr
        let _ ← expect .rightParen unclosed
        let s ← body
        f e s : Rule α) ts = .ok a rest ↔
      ∃ opening : Mark .leftParen, ∃ condition : Expression, ∃ closing : Mark .rightParen,
        ∃ t : Statement, ∃ mid,
          ts = opening.token :: (condition.tokens ++ closing.token :: (t.tokens ++ mid)) ∧
            t.Spans (t.tokens ++ mid) mid ∧ f condition.expr t.desugar mid = .ok a rest := by
  rw [condition_bind_eq_ok_iff hexpr hts]
  constructor
  · rintro ⟨opening, condition, closing, more, rfl, h⟩
    have hmore : more.length ≤ bound := by
      simp only [List.length_append, List.length_cons] at hts
      omega
    obtain ⟨t, mid, ht, h'⟩ := (body_bind_eq_ok_iff hbody hmore).1 h
    obtain rfl := ht.tokens_eq
    exact ⟨opening, condition, closing, t, mid, rfl, ht, h'⟩
  · rintro ⟨opening, condition, closing, t, mid, rfl, ht, h⟩
    have hmore : (t.tokens ++ mid).length ≤ bound := by
      simp only [List.length_append, List.length_cons] at hts ⊢
      omega
    exact ⟨opening, condition, closing, _, rfl,
      (body_bind_eq_ok_iff hbody hmore).2 ⟨t, mid, ht, h⟩⟩

/-- Loops are read behind `while`. -/
theorem whileStatement_eq_ok_iff (hexpr : Reads .assignment bound expr)
    (hbody : ReadsStatement bound body) (hts : ts.length ≤ bound)
    (word : Mark (.keyword .whileWord)) :
    whileStatement expr body ts = .ok s rest ↔
      ∃ opening condition closing t,
        (Statement.whileLoop word opening condition closing t).Spans (word.token :: ts) rest ∧
          (Statement.whileLoop word opening condition closing t).desugar = s := by
  unfold whileStatement
  rw [condition_body_bind_eq_ok_iff hexpr hbody hts]
  constructor
  · rintro ⟨opening, condition, closing, t, mid, htokens, ht, h⟩
    rw [pure_eq_ok_iff] at h
    obtain ⟨rfl, rfl⟩ := h
    refine ⟨opening, condition, closing, t, ⟨?_, ht.proper, ht.closed⟩, rfl⟩
    simp [Statement.tokens, htokens]
  · rintro ⟨opening, condition, closing, t, ⟨htokens, hproper, hclosed⟩, rfl⟩
    refine ⟨opening, condition, closing, t, rest, ?_, ⟨rfl, hproper, hclosed⟩, rfl⟩
    simpa [Statement.tokens] using htokens

/-- Conditionals are read behind `if`: a second branch whenever an `else` is there. -/
theorem ifStatement_eq_ok_iff (hexpr : Reads .assignment bound expr)
    (hbody : ReadsStatement bound body) (hts : ts.length ≤ bound)
    (word : Mark (.keyword .ifWord)) :
    ifStatement expr body ts = .ok s rest ↔
      (∃ opening condition closing t,
        (Statement.branch word opening condition closing t).Spans (word.token :: ts) rest ∧
          (Statement.branch word opening condition closing t).desugar = s) ∨
      ∃ opening condition closing t elseWord t',
        (Statement.branchElse word opening condition closing t elseWord t').Spans
            (word.token :: ts) rest ∧
          (Statement.branchElse word opening condition closing t elseWord t').desugar = s := by
  unfold ifStatement
  rw [condition_body_bind_eq_ok_iff hexpr hbody hts]
  constructor
  · rintro ⟨opening, condition, closing, t, mid, rfl, ht, h⟩
    rw [accept_mark_bind_eq_ok_iff (by decide)] at h
    rcases h with ⟨elseWord, more, rfl, h⟩ | ⟨hstop, h⟩
    · have hmore : more.length ≤ bound := by
        simp only [List.length_append, List.length_cons] at hts
        omega
      obtain ⟨t', final, ht', h⟩ := (body_bind_eq_ok_iff hbody hmore).1 h
      rw [pure_eq_ok_iff] at h
      obtain ⟨rfl, rfl⟩ := h
      -- the first branch is closed, since an `else` follows it
      have hopen : t.endsOpen = false := by
        rw [← Bool.not_eq_true]
        exact fun hopen => not_stops_mark elseWord _ (ht.closed hopen)
      refine .inr ⟨opening, condition, closing, t, elseWord, t',
        ⟨?_, ⟨ht.proper, hopen, ht'.proper⟩, ht'.closed⟩, rfl⟩
      simp [Statement.tokens, ht'.tokens_eq]
    · -- no `else` follows, which is what the first branch asks for
      rw [pure_eq_ok_iff] at h
      obtain ⟨rfl, rfl⟩ := h
      refine .inl ⟨opening, condition, closing, t, ⟨?_, ht.proper, fun _ => hstop⟩, rfl⟩
      simp [Statement.tokens]
  · rintro (⟨opening, condition, closing, t, ⟨htokens, hproper, hclosed⟩, rfl⟩ |
      ⟨opening, condition, closing, t, elseWord, t', ⟨htokens, ⟨hproper, hopen, hproper'⟩, hclosed⟩,
        rfl⟩)
    · -- without an `else`: none may follow, so none is looked for
      refine ⟨opening, condition, closing, t, rest, ?_, ⟨rfl, hproper, fun _ => hclosed rfl⟩, ?_⟩
      · simpa [Statement.tokens] using htokens
      · exact (accept_mark_bind_eq_ok_iff (by decide)).2 (.inr ⟨hclosed rfl, rfl⟩)
    · -- with an `else`: the first branch is closed and leaves it
      have hts' : ts = opening.token :: (condition.tokens ++ closing.token ::
          (t.tokens ++ elseWord.token :: (t'.tokens ++ rest))) := by
        simpa [Statement.tokens] using htokens
      have hmore : (t'.tokens ++ rest).length ≤ bound := by
        rw [hts'] at hts
        simp only [List.length_append, List.length_cons] at hts ⊢
        omega
      refine ⟨opening, condition, closing, t, _, hts',
        Statement.spans_of_endsOpen_eq_false rfl hproper hopen, ?_⟩
      refine (accept_mark_bind_eq_ok_iff (by decide)).2 (.inl ⟨elseWord, _, rfl, ?_⟩)
      exact (body_bind_eq_ok_iff hbody hmore).2 ⟨t', rest, ⟨rfl, hproper', hclosed⟩, rfl⟩

/-- The two ways to write down a `for` loop agree. -/
theorem forLoop_eq (initializer : ForInitializer) (condition increment : Option Expression)
    (body : Stmt) :
    Stmt.forLoop initializer.desugar (condition.map ExprTree.expr) (increment.map ExprTree.expr)
        body =
      withInitializer initializer.desugar
        (.loop (conditionOrTrue condition) (withIncrement increment body)) := by
  cases initializer <;> cases condition <;> cases increment <;> rfl

/-- Loops are read behind `for`. -/
theorem forStatement_eq_ok_iff (hexpr : Reads .assignment bound expr)
    (hbody : ReadsStatement bound body) (hts : ts.length ≤ bound)
    (word : Mark (.keyword .forWord)) :
    forStatement expr body ts = .ok s rest ↔
      ∃ opening initializer condition separator increment closing t,
        (Statement.forLoop word opening initializer condition separator increment closing t).Spans
            (word.token :: ts) rest ∧
          (Statement.forLoop word opening initializer condition separator increment closing
            t).desugar = s := by
  unfold forStatement
  rw [expect_bind_eq_ok_iff (by decide)]
  constructor
  · rintro ⟨opening, mid, rfl, h⟩
    -- each clause leaves fewer tokens than there were, so the bound passes on
    have hmid : mid.length ≤ bound := Nat.le_trans (Nat.le_succ _) hts
    rw [bind_eq_ok_iff] at h
    obtain ⟨o, mid₁, ho, h₁⟩ := h
    obtain ⟨initializer, rfl, rfl⟩ := (forInitializer_eq_ok_iff hexpr hmid).1 ho
    have hmid₁ : mid₁.length ≤ bound := by
      rw [List.length_append] at hmid
      omega
    rw [optionalBefore_expect_bind_eq_ok_iff hexpr hmid₁ (by decide) (by decide) (by decide)] at h₁
    obtain ⟨condition, separator, mid₂, rfl, h₂⟩ := h₁
    have hmid₂ : mid₂.length ≤ bound := by
      simp only [List.length_append, List.length_cons] at hmid₁
      omega
    rw [optionalBefore_expect_bind_eq_ok_iff hexpr hmid₂ (by decide) (by decide) (by decide)] at h₂
    obtain ⟨increment, closing, mid₃, rfl, h₃⟩ := h₂
    have hmid₃ : mid₃.length ≤ bound := by
      simp only [List.length_append, List.length_cons] at hmid₂
      omega
    obtain ⟨t, final, ht, h₄⟩ := (body_bind_eq_ok_iff hbody hmid₃).1 h₃
    rw [pure_eq_ok_iff, forLoop_eq] at h₄
    obtain ⟨rfl, rfl⟩ := h₄
    refine ⟨opening, initializer, condition, separator, increment, closing, t,
      ⟨?_, ht.proper, ht.closed⟩, rfl⟩
    simp [Statement.tokens, ht.tokens_eq]
  · rintro ⟨opening, initializer, condition, separator, increment, closing, t,
      ⟨htokens, hproper, hclosed⟩, rfl⟩
    have hts' : ts = opening.token :: (initializer.tokens ++ (optionalTokens condition ++
        separator.token :: (optionalTokens increment ++
          closing.token :: (t.tokens ++ rest)))) := by
      simpa [Statement.tokens] using htokens
    -- clause by clause, each of them in front of the token that ends it
    subst hts'
    refine ⟨opening, _, rfl, ?_⟩
    simp only [List.length_append, List.length_cons] at hts
    refine bind_eq_ok_iff.2 ⟨initializer.desugar, _,
      (forInitializer_eq_ok_iff hexpr ?_).2 ⟨initializer, rfl, rfl⟩, ?_⟩
    · simp only [List.length_append, List.length_cons]
      omega
    refine (optionalBefore_expect_bind_eq_ok_iff hexpr ?_ (by decide) (by decide) (by decide)).2
      ⟨condition, separator, _, rfl, ?_⟩
    · simp only [List.length_append, List.length_cons]
      omega
    refine (optionalBefore_expect_bind_eq_ok_iff hexpr ?_ (by decide) (by decide) (by decide)).2
      ⟨increment, closing, _, rfl, ?_⟩
    · simp only [List.length_append, List.length_cons]
      omega
    refine (body_bind_eq_ok_iff hbody ?_).2 ⟨t, rest, ⟨rfl, hproper, hclosed⟩, ?_⟩
    · simp only [List.length_append]
      omega
    · rw [pure_eq_ok_iff, forLoop_eq]
      exact ⟨rfl, rfl⟩

end Inner

/-! ## Declarations -/

/-- Whether a declaration ends in a conditional without `else`. -/
def Declaration.endsOpen : Declaration → Bool
  | .binding _ => false
  | .statement s => s.endsOpen

/-- A derivation of a declaration at the front of a list of tokens. -/
structure Declaration.Spans (d : Declaration) (ts rest : List Token) : Prop where
  tokens_eq : ts = d.tokens ++ rest
  proper : d.Proper
  closed : d.endsOpen = true → Stops [.keyword .elseWord] rest

/-- In front of at most `bound` tokens a rule succeeds exactly on the derivations of declarations,
with their program trees. -/
def ReadsDeclaration (bound : Nat) (rule : Rule Stmt) : Prop :=
  ∀ ts : List Token, ts.length ≤ bound → ∀ s rest, rule ts = .ok s rest ↔
    ∃ d : Declaration, d.Spans ts rest ∧ d.desugar = s

/-- The kinds of tokens that a declaration starts with. -/
def declarationStarts : List TokenKind :=
  [.keyword .varWord, .keyword .forWord, .keyword .ifWord, .keyword .printWord,
    .keyword .whileWord, .leftBrace] ++ expressionStarts

/-- A statement has a first token, of a kind that declarations but not variable declarations start
with. -/
theorem Statement.exists_tokens_eq_cons (s : Statement) :
    ∃ first rest, s.tokens = first :: rest ∧ first.kind ∈ declarationStarts.tail := by
  cases s with
  | expression e =>
    obtain ⟨first, rest, htokens, hkind⟩ := e.inner.exists_tokens_eq_cons
    refine ⟨first, rest ++ [e.closing.token], ?_, ?_⟩
    · simp [tokens, ExpressionStatement.tokens, htokens]
    · exact List.mem_append_right
        [.keyword .forWord, .keyword .ifWord, .keyword .printWord, .keyword .whileWord,
          .leftBrace] hkind
  | _ => exact ⟨_, _, rfl, by simp [declarationStarts]⟩

/-- A declaration has a first token, of a kind that declarations start with. -/
theorem Declaration.exists_tokens_eq_cons (d : Declaration) :
    ∃ first rest, d.tokens = first :: rest ∧ first.kind ∈ declarationStarts := by
  cases d with
  | binding d => exact ⟨_, _, rfl, by simp [declarationStarts]⟩
  | statement s =>
    obtain ⟨first, rest, htokens, hkind⟩ := s.exists_tokens_eq_cons
    exact ⟨first, rest, htokens, List.mem_of_mem_tail hkind⟩

/-- A declaration takes a token at least. -/
theorem Declaration.length_lt_append (d : Declaration) (rest : List Token) :
    rest.length < (d.tokens ++ rest).length := by
  obtain ⟨first, others, htokens, -⟩ := d.exists_tokens_eq_cons
  rw [htokens, List.length_append, List.length_cons]
  omega

/-- Declarations start with none of the kinds that only what follows them starts with. -/
theorem stops_allTokens_append {kinds : List TokenKind}
    (hkinds : ∀ k ∈ declarationStarts, k ∉ kinds) (ds : List Declaration) {rest : List Token}
    (hrest : Stops kinds rest) : Stops kinds (Declaration.allTokens ds ++ rest) := by
  cases ds with
  | nil => exact hrest
  | cons d ds =>
    obtain ⟨first, others, htokens, hkind⟩ := d.exists_tokens_eq_cons
    simp only [Declaration.allTokens, htokens, List.cons_append, stops_cons]
    exact hkinds _ hkind

end Lox.Surface
