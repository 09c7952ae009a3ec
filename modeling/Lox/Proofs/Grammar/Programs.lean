import Lox.Proofs.Grammar.Statements

/-! # Reading programs

Declarations are read one after the other up to a closing brace or the end. With that the rule for
statements closes on itself, and statements, declarations and whole programs are read.

* **`reads_statement`** — statements, on any number of tokens;
* **`reads_declaration`** — declarations;
* **`program_eq_ok_iff`** — programs, up to the end token. -/

namespace Lox.Surface

open Grammar Rule

/-- The next token exists and is of one of the given kinds. -/
def Meets (kinds : List TokenKind) : List Token → Prop
  | [] => False
  | t :: _ => t.kind ∈ kinds

@[simp] theorem meets_cons (kinds : List TokenKind) (t : Token) (rest : List Token) :
    Meets kinds (t :: rest) ↔ t.kind ∈ kinds := Iff.rfl

/-- A next token of some kinds is of none of the others. -/
theorem Meets.stops {kinds others : List TokenKind} {ts : List Token} (h : Meets kinds ts)
    (hdisjoint : ∀ k ∈ kinds, k ∉ others) : Stops others ts := by
  cases ts with
  | nil => exact h
  | cons t rest => exact hdisjoint _ h

/-! ## Declarations up to an end -/

/-- A rule repeats the rules for an item, of which each round grants one token less, until a token
of the given kinds is next; the items found are kept with the last one first. -/
structure RepeatsUntil (ends : List TokenKind) (item : Nat → Rule Stmt)
    (loop : Nat → List Stmt → Rule (List Stmt)) : Prop where
  zero : ∀ found, loop 0 found = throw .endOfTokens
  nil : ∀ n found, loop (n + 1) found [] = .error .endOfTokens []
  stop : ∀ n found t rest, t.kind ∈ ends →
    loop (n + 1) found (t :: rest) = .ok found.reverse (t :: rest)
  next : ∀ n found t rest, t.kind ∉ ends → loop (n + 1) found (t :: rest) =
    (item (n + 1) >>= fun s => loop n (s :: found)) (t :: rest)

/-- In front of a token that starts no declaration there are none. -/
theorem eq_nil_of_cons_eq_allTokens_append {ends : List TokenKind}
    (hstart : ∀ k ∈ declarationStarts, k ∉ ends) {ds : List Declaration} {t : Token}
    {more rest : List Token} (htokens : t :: more = Declaration.allTokens ds ++ rest)
    (hmem : t.kind ∈ ends) : ds = [] := by
  cases ds with
  | nil => rfl
  | cons d ds =>
    obtain ⟨first, others, hfirst, hkind⟩ := d.exists_tokens_eq_cons
    rw [Declaration.allTokens, hfirst] at htokens
    cases htokens
    exact absurd hmem (hstart _ hkind)

/-- **Declarations are read up to an end** that neither starts a declaration nor is an `else`. The
induction is on the rounds granted; a declaration takes a token at least, so the rounds granted
suffice for what it leaves. -/
theorem RepeatsUntil.eq_ok_iff {ends : List TokenKind} {item : Nat → Rule Stmt}
    {loop : Nat → List Stmt → Rule (List Stmt)} (hloop : RepeatsUntil ends item loop)
    (hstart : ∀ k ∈ declarationStarts, k ∉ ends) (helse : ∀ k ∈ ends, k ∉ [.keyword .elseWord])
    {bound : Nat} (hitem : ∀ n, ReadsDeclaration (min n bound) (item n)) {n : Nat}
    {ts rest : List Token} {found found' : List Stmt} (hn : ts.length ≤ n)
    (hts : ts.length ≤ bound) :
    loop n found ts = .ok found' rest ↔
      ∃ ds, ts = Declaration.allTokens ds ++ rest ∧ Declaration.AllProper ds ∧
        found.reverse ++ Declaration.desugarAll ds = found' ∧ Meets ends rest := by
  -- an end is a token, so no derivation leaves nothing
  have hempty : ∀ ds, [] = Declaration.allTokens ds ++ rest → ¬ Meets ends rest := by
    intro ds hnil hmeets
    rw [(List.append_eq_nil_iff.1 hnil.symm).2] at hmeets
    exact hmeets
  induction n generalizing ts found with
  | zero =>
    have hnil : ts = [] := List.length_eq_zero_iff.1 (Nat.le_zero.1 hn)
    subst hnil
    rw [hloop.zero]
    exact ⟨fun h => absurd h (throw_ne_ok _ _),
      fun ⟨ds, hnil, _, _, hmeets⟩ => absurd hmeets (hempty ds hnil)⟩
  | succ n ih =>
    cases ts with
    | nil =>
      rw [hloop.nil]
      exact ⟨nofun, fun ⟨ds, hnil, _, _, hmeets⟩ => absurd hmeets (hempty ds hnil)⟩
    | cons t more =>
      by_cases hmem : t.kind ∈ ends
      · -- at an end: nothing is derived in front of it
        rw [hloop.stop _ _ _ _ hmem]
        constructor
        · intro h
          cases h
          exact ⟨[], rfl, trivial, by simp [Declaration.desugarAll], hmem⟩
        · rintro ⟨ds, htokens, -, rfl, -⟩
          obtain rfl := eq_nil_of_cons_eq_allTokens_append hstart htokens hmem
          rw [Declaration.allTokens, List.nil_append] at htokens
          rw [htokens, Declaration.desugarAll, List.append_nil]
      · -- before an end: one declaration, and the others by induction
        rw [hloop.next _ _ _ _ hmem, bind_eq_ok_iff]
        have hread := hitem (n + 1) (t :: more) (Nat.le_min.2 ⟨hn, hts⟩)
        constructor
        · rintro ⟨s, mid, hs, h⟩
          obtain ⟨d, ⟨htokens, hproper, -⟩, rfl⟩ := (hread _ _).1 hs
          have hlen : mid.length < (t :: more).length := htokens ▸ d.length_lt_append mid
          have hmid : mid.length ≤ n := Nat.le_of_lt_succ (Nat.lt_of_lt_of_le hlen hn)
          have hbound : mid.length ≤ bound := Nat.le_trans (Nat.le_of_lt hlen) hts
          obtain ⟨ds, rfl, hall, rfl, hmeets⟩ := (ih hmid hbound).1 h
          refine ⟨d :: ds, ?_, ⟨hproper, hall⟩, ?_, hmeets⟩
          · rw [htokens, Declaration.allTokens, List.append_assoc]
          · rw [Declaration.desugarAll, List.reverse_cons, List.append_assoc,
              List.singleton_append]
        · rintro ⟨ds, htokens, hall, rfl, hmeets⟩
          cases ds with
          | nil =>
            rw [Declaration.allTokens, List.nil_append] at htokens
            rw [← htokens] at hmeets
            exact absurd hmeets hmem
          | cons d ds =>
            rw [Declaration.allTokens, List.append_assoc] at htokens
            have hlen : (Declaration.allTokens ds ++ rest).length < (t :: more).length :=
              htokens ▸ d.length_lt_append _
            have hmid := Nat.le_of_lt_succ (Nat.lt_of_lt_of_le hlen hn)
            have hbound := Nat.le_trans (Nat.le_of_lt hlen) hts
            -- what follows the first declaration is another one or the end, but no `else`
            have hstop : Stops [.keyword .elseWord] (Declaration.allTokens ds ++ rest) :=
              stops_allTokens_append (by decide) ds (hmeets.stops helse)
            refine ⟨d.desugar, _, (hread _ _).2 ⟨d, ⟨htokens, hall.1, fun _ => hstop⟩, rfl⟩,
              (ih hmid hbound).2 ⟨ds, rfl, hall.2, ?_, hmeets⟩⟩
            rw [Declaration.desugarAll, List.reverse_cons, List.append_assoc,
              List.singleton_append]

section Declarations

variable {expr : Rule Expr} {item other : Rule Stmt} {bound : Nat} {ts rest : List Token}

/-- Declarations are read if expressions and statements are. -/
theorem reads_declarationOr (hexpr : Reads .assignment bound expr)
    (hother : ReadsStatement bound other) : ReadsDeclaration bound (declarationOr expr other) := by
  intro ts hts s rest
  unfold declarationOr
  rw [accept_mark_bind_eq_ok_iff (by decide)]
  constructor
  · rintro (⟨word, more, rfl, h⟩ | ⟨-, h⟩)
    · have hmore : more.length ≤ bound := Nat.le_trans (Nat.le_succ _) hts
      obtain ⟨d, -, htokens, rfl⟩ := (variableDeclaration_eq_ok_iff hexpr hmore word).1 h
      exact ⟨.binding d, ⟨htokens, trivial, nofun⟩, rfl⟩
    · obtain ⟨t, ht, rfl⟩ := (hother _ hts _ _).1 h
      exact ⟨.statement t, ⟨ht.tokens_eq, ht.proper, ht.closed⟩, rfl⟩
  · rintro ⟨d, ⟨rfl, hproper, hclosed⟩, rfl⟩
    cases d with
    | binding d =>
      have hlen : (d.tokens.tail ++ rest).length ≤ bound := Nat.le_trans (Nat.le_succ _) hts
      exact .inl ⟨d.word, d.tokens.tail ++ rest, rfl,
        (variableDeclaration_eq_ok_iff hexpr hlen d.word).2 ⟨d, rfl, rfl, rfl⟩⟩
    | statement t =>
      refine .inr ⟨?_, (hother _ hts _ _).2 ⟨t, ⟨rfl, hproper, hclosed⟩, rfl⟩⟩
      -- no statement starts with `var`
      obtain ⟨first, others, htokens, hkind⟩ := t.exists_tokens_eq_cons
      simp only [Declaration.tokens, htokens, List.cons_append, stops_cons]
      intro hvar
      rw [List.mem_singleton.1 hvar] at hkind
      exact absurd hkind (by decide)

/-- The kinds of tokens that end the declarations of a block. -/
def blockEnds : List TokenKind := [.rightBrace, .endOfInput]

/-- The declarations of a block are repeated up to a closing brace or the end. -/
theorem repeatsUntil_declarationsOnto (item : Rule Stmt) :
    RepeatsUntil blockEnds (fun _ => item) (declarationsOnto item) where
  zero := fun _ => rfl
  nil := fun _ _ => rfl
  stop := by
    intro n found t rest h
    simp only [blockEnds, List.mem_cons, List.not_mem_nil, or_false] at h
    show (if _ then _ else _ : Rule (List Stmt)) _ = _
    rw [if_pos (by rcases h with h | h <;> simp [h])]
    rfl
  next := by
    intro n found t rest h
    simp only [blockEnds, List.mem_cons, List.not_mem_nil, or_false, not_or] at h
    show (if _ then _ else _ : Rule (List Stmt)) _ = _
    rw [if_neg (by simp [h])]

/-- Declarations are read up to the end of their block. -/
theorem declarationsOnto_eq_ok_iff (hitem : ReadsDeclaration bound item) {n : Nat}
    {found found' : List Stmt} (hn : ts.length ≤ n) (hts : ts.length ≤ bound) :
    declarationsOnto item n found ts = .ok found' rest ↔
      ∃ ds, ts = Declaration.allTokens ds ++ rest ∧ Declaration.AllProper ds ∧
        found.reverse ++ Declaration.desugarAll ds = found' ∧ Meets blockEnds rest :=
  (repeatsUntil_declarationsOnto item).eq_ok_iff (by decide) (by decide)
    (fun _ ts hmin => hitem ts (Nat.le_trans hmin (Nat.min_le_right _ _))) hn hts

/-- Blocks are read behind their opening brace. -/
theorem block_eq_ok_iff (hitem : ReadsDeclaration bound item) (hts : ts.length ≤ bound)
    {n : Nat} (hn : ts.length ≤ n) {body : List Stmt} :
    block item n ts = .ok body rest ↔
      ∃ ds, ∃ closing : Mark .rightBrace,
        ts = Declaration.allTokens ds ++ closing.token :: rest ∧ Declaration.AllProper ds ∧
          Declaration.desugarAll ds = body := by
  unfold block
  rw [bind_eq_ok_iff]
  have hbrace : TokenKind.rightBrace ≠ .endOfInput := by decide
  simp only [declarationsOnto_eq_ok_iff hitem hn hts, expect_bind_eq_ok_iff hbrace,
    pure_eq_ok_iff, List.reverse_nil, List.nil_append]
  constructor
  · rintro ⟨found, mid, ⟨ds, rfl, hall, rfl, -⟩, closing, more, rfl, rfl, rfl⟩
    exact ⟨ds, closing, rfl, hall, rfl⟩
  · rintro ⟨ds, closing, rfl, hall, rfl⟩
    exact ⟨_, _, ⟨ds, rfl, hall, rfl, by simp [blockEnds]⟩, closing, rest, rfl, rfl, rfl⟩

end Declarations

/-! ## Statements of any form -/

section Forms

variable {expr : Rule Expr} {inner : Rule Stmt} {bound : Nat} {t : Token} {rest : List Token}

/-- Behind `for` there is a loop. -/
theorem statementOver_of_for (h : t.kind = .keyword .forWord) :
    statementOver expr inner bound (t :: rest) = forStatement expr inner rest := by
  unfold statementOver
  simp only [peek_bind_cons, h]
  exact skip_bind_cons (by simp [h])

/-- Behind `if` there is a conditional. -/
theorem statementOver_of_if (h : t.kind = .keyword .ifWord) :
    statementOver expr inner bound (t :: rest) = ifStatement expr inner rest := by
  unfold statementOver
  simp only [peek_bind_cons, h]
  exact skip_bind_cons (by simp [h])

/-- Behind `print` there is what is printed. -/
theorem statementOver_of_print (h : t.kind = .keyword .printWord) :
    statementOver expr inner bound (t :: rest) = printStatement expr rest := by
  unfold statementOver
  simp only [peek_bind_cons, h]
  exact skip_bind_cons (by simp [h])

/-- Behind `while` there is a loop. -/
theorem statementOver_of_while (h : t.kind = .keyword .whileWord) :
    statementOver expr inner bound (t :: rest) = whileStatement expr inner rest := by
  unfold statementOver
  simp only [peek_bind_cons, h]
  exact skip_bind_cons (by simp [h])

/-- Behind an opening brace there is a block. -/
theorem statementOver_of_leftBrace (h : t.kind = .leftBrace) :
    statementOver expr inner bound (t :: rest) =
      (Stmt.block <$> block (declarationOr expr inner) bound) rest := by
  unfold statementOver
  simp only [peek_bind_cons, h]
  exact skip_bind_cons (by simp [h])

/-- The kinds of tokens that open a statement other than an expression statement. -/
def leaders : List TokenKind :=
  [.keyword .forWord, .keyword .ifWord, .keyword .printWord, .keyword .whileWord, .leftBrace]

/-- Any other statement is an expression statement. -/
theorem statementOver_of_not_mem (h : t.kind ∉ leaders) :
    statementOver expr inner bound (t :: rest) = expressionStatement expr (t :: rest) := by
  simp only [leaders, List.mem_cons, List.not_mem_nil, or_false, not_or] at h
  obtain ⟨h₁, h₂, h₃, h₄, h₅⟩ := h
  unfold statementOver
  simp only [peek_bind_cons]

/-- **Statements of any form are read** if the expressions and statements inside them are. -/
theorem reads_statementOver (hexpr : Reads .assignment (bound + 1) expr)
    (hinner : ReadsStatement bound inner) :
    ReadsStatement (bound + 1) (statementOver expr inner (bound + 1)) := by
  have hexpr' : Reads .assignment bound expr := fun ts hts => hexpr ts (Nat.le_succ_of_le hts)
  have hitem := reads_declarationOr hexpr' hinner
  intro ts hts s rest
  constructor
  · intro h
    cases ts with
    | nil => cases h
    | cons t more =>
      have hmore : more.length ≤ bound := by simpa using hts
      -- the first token says which form of statement it is
      by_cases hmem : t.kind ∈ leaders
      · simp only [leaders, List.mem_cons, List.not_mem_nil, or_false] at hmem
        rcases hmem with hkind | hkind | hkind | hkind | hkind
        · rw [statementOver_of_for hkind,
            forStatement_eq_ok_iff hexpr' hinner hmore (.ofKind hkind)] at h
          obtain ⟨_, _, _, _, _, _, _, hspans, rfl⟩ := h
          exact ⟨_, hspans, rfl⟩
        · rw [statementOver_of_if hkind,
            ifStatement_eq_ok_iff hexpr' hinner hmore (.ofKind hkind)] at h
          rcases h with ⟨_, _, _, _, hspans, rfl⟩ | ⟨_, _, _, _, _, _, hspans, rfl⟩
          · exact ⟨_, hspans, rfl⟩
          · exact ⟨_, hspans, rfl⟩
        · rw [statementOver_of_print hkind, printStatement_eq_ok_iff hexpr' hmore] at h
          obtain ⟨e, closing, rfl, rfl⟩ := h
          exact ⟨.print (.ofKind hkind) e closing,
            Statement.spans_of_endsOpen_eq_false (by simp [Statement.tokens]) trivial rfl, rfl⟩
        · rw [statementOver_of_while hkind,
            whileStatement_eq_ok_iff hexpr' hinner hmore (.ofKind hkind)] at h
          obtain ⟨_, _, _, _, hspans, rfl⟩ := h
          exact ⟨_, hspans, rfl⟩
        · rw [statementOver_of_leftBrace hkind, map_eq_ok_iff] at h
          obtain ⟨body, hbody, rfl⟩ := h
          obtain ⟨ds, closing, rfl, hall, rfl⟩ :=
            (block_eq_ok_iff hitem hmore (Nat.le_succ_of_le hmore)).1 hbody
          exact ⟨.block (.ofKind hkind) ds closing,
            Statement.spans_of_endsOpen_eq_false (by simp [Statement.tokens]) hall rfl, rfl⟩
      · rw [statementOver_of_not_mem hmem, expressionStatement_eq_ok_iff hexpr hts] at h
        obtain ⟨e, htokens, rfl⟩ := h
        exact ⟨.expression e, Statement.spans_of_endsOpen_eq_false htokens trivial rfl, rfl⟩
  · rintro ⟨t, ht, rfl⟩
    obtain ⟨rfl, hproper, hclosed⟩ := ht
    cases t with
    | forLoop word opening initializer condition separator increment closing body =>
      have hlen := Nat.le_of_succ_le_succ hts
      exact (statementOver_of_for (by simp)).trans
        ((forStatement_eq_ok_iff hexpr' hinner hlen word).2
          ⟨_, _, _, _, _, _, _, ⟨rfl, hproper, hclosed⟩, rfl⟩)
    | branch word opening condition closing thenBranch =>
      have hlen := Nat.le_of_succ_le_succ hts
      exact (statementOver_of_if (by simp)).trans
        ((ifStatement_eq_ok_iff hexpr' hinner hlen word).2
          (.inl ⟨_, _, _, _, ⟨rfl, hproper, hclosed⟩, rfl⟩))
    | branchElse word opening condition closing thenBranch elseWord elseBranch =>
      have hlen := Nat.le_of_succ_le_succ hts
      exact (statementOver_of_if (by simp)).trans
        ((ifStatement_eq_ok_iff hexpr' hinner hlen word).2
          (.inr ⟨_, _, _, _, _, _, ⟨rfl, hproper, hclosed⟩, rfl⟩))
    | print word e closing =>
      have hlen := Nat.le_of_succ_le_succ hts
      exact (statementOver_of_print (by simp)).trans
        ((printStatement_eq_ok_iff hexpr' hlen).2 ⟨e, closing, by simp, rfl⟩)
    | whileLoop word opening condition closing body =>
      have hlen := Nat.le_of_succ_le_succ hts
      exact (statementOver_of_while (by simp)).trans
        ((whileStatement_eq_ok_iff hexpr' hinner hlen word).2
          ⟨_, _, _, _, ⟨rfl, hproper, hclosed⟩, rfl⟩)
    | block opening body closing =>
      have hlen := Nat.le_of_succ_le_succ hts
      refine (statementOver_of_leftBrace (by simp)).trans (map_eq_ok_iff.2 ⟨_, ?_, rfl⟩)
      exact (block_eq_ok_iff hitem hlen (Nat.le_succ_of_le hlen)).2
        ⟨body, closing, by simp, hproper, rfl⟩
    | expression e =>
      -- an expression starts with none of the leading words
      have hread := (expressionStatement_eq_ok_iff hexpr hts).2 ⟨e, rfl, rfl⟩
      obtain ⟨first, others, htokens, hfirst⟩ := e.inner.exists_tokens_eq_cons
      have hcons : (Statement.expression e).tokens ++ rest =
          first :: (others ++ e.closing.token :: rest) := by
        simp [Statement.tokens, ExpressionStatement.tokens, htokens]
      have hdisjoint : ∀ k ∈ expressionStarts, k ∉ leaders := by decide
      rw [hcons] at hread ⊢
      rw [statementOver_of_not_mem (hdisjoint _ hfirst)]
      exact hread

end Forms

/-- **Statements are read**, whatever tokens are left. -/
theorem reads_statement (bound : Nat) : ReadsStatement bound (statement bound) := by
  induction bound with
  | zero =>
    intro ts hts s rest
    have hnil : ts = [] := List.length_eq_zero_iff.1 (Nat.le_zero.1 hts)
    subst hnil
    constructor
    · intro h
      exact absurd h (throw_ne_ok _ _)
    · rintro ⟨t, ht, -⟩
      -- a statement has a token, and there are none
      obtain ⟨first, others, htokens, -⟩ := t.exists_tokens_eq_cons
      have hnil := ht.tokens_eq
      rw [htokens] at hnil
      cases hnil
  | succ bound ih => exact reads_statementOver (reads_expression (bound + 1)) ih

/-- **Declarations are read**, whatever tokens are left. -/
theorem reads_declaration (bound : Nat) : ReadsDeclaration bound (declaration bound) :=
  reads_declarationOr (reads_expression bound) (reads_statement bound)

/-! ## Programs -/

/-- The declarations of a program are repeated up to the end token. -/
theorem repeatsUntil_programOnto : RepeatsUntil [.endOfInput] declaration programOnto where
  zero := fun _ => rfl
  nil := fun _ _ => rfl
  stop := by
    intro n found t rest h
    show (if _ then _ else _ : Rule (List Stmt)) _ = _
    rw [if_pos (by simpa using h)]
    rfl
  next := by
    intro n found t rest h
    show (if _ then _ else _ : Rule (List Stmt)) _ = _
    rw [if_neg (by simpa using h)]

/-- **Programs are read** up to the end token, and only they. -/
theorem program_eq_ok_iff {bound : Nat} {ts rest : List Token} {statements : List Stmt}
    (hts : ts.length ≤ bound) :
    program bound ts = .ok statements rest ↔
      ∃ p : Program, ts = p.tokens ++ rest ∧ p.desugar = statements ∧
        Meets [.endOfInput] rest := by
  have hitem : ∀ n, ReadsDeclaration (min n bound) (declaration n) :=
    fun n ts hmin => reads_declaration n ts (Nat.le_trans hmin (Nat.min_le_left _ _))
  unfold program
  rw [repeatsUntil_programOnto.eq_ok_iff (by decide) (by decide) hitem hts hts]
  constructor
  · rintro ⟨ds, htokens, hall, h, hmeets⟩
    exact ⟨⟨ds, hall⟩, htokens, h, hmeets⟩
  · rintro ⟨⟨ds, hall⟩, htokens, h, hmeets⟩
    exact ⟨ds, htokens, hall, h, hmeets⟩

end Lox.Surface
