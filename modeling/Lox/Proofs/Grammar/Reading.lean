import Mathlib.Logic.ExistsUnique
import Lox.Grammar.Cursor
import Lox.Proofs.Grammar.Totality
import Lox.Proofs.Grammar.Unambiguity

/-! # Reading a whole list of tokens

A cursor in front of tokens with the end token behind them reads exactly the surface programs.

* **`Cursor.readProgram_eq_some_iff`** — when a cursor answers statements, and where it stands then;
* **`Cursor.existsUnique_program_of_readProgram`** — the statements it answers are those of the one
  program that the tokens are;
* **`Cursor.readProgram_tokens`** — every program is read;
* **`Cursor.exists_readProgram_eq_ok`** — whatever the tokens are, there is an answer: the
  statements that they are read as (`Grammar.statements?`), or a report
  (`Grammar.syntaxError?`). -/

namespace Lox

namespace Cursor

open Surface Grammar

/-- A cursor answers statements iff the tokens left are a program in front of an end token, and then
it stands there; nothing was reported. -/
theorem readProgram_eq_some_iff {c c' : Cursor} {statements : List Stmt} :
    readProgram c = .ok (some statements) c' ↔
      ∃ p : Program, ∃ rest, c.rest = p.tokens ++ rest ∧ p.desugar = statements ∧
        Meets [.endOfInput] rest ∧ c.leave rest = c' := by
  have hread : ∀ rest, program c.rest.length c.rest = .ok statements rest ↔
      ∃ p : Program, c.rest = p.tokens ++ rest ∧ p.desugar = statements ∧
        Meets [.endOfInput] rest := fun _ => program_eq_ok_iff (Nat.le_refl _)
  unfold readProgram run
  constructor
  · intro h
    cases hprogram : program c.rest.length c.rest with
    | ok found rest =>
      rw [hprogram] at h
      cases h
      obtain ⟨p, htokens, hdesugar, hmeets⟩ := (hread _).1 hprogram
      exact ⟨p, rest, htokens, hdesugar, hmeets, rfl⟩
    | error e rest =>
      rw [hprogram] at h
      cases e with
      | endOfTokens => cases h
      | error e =>
        -- recovery ends without statements
        change EStateM.bind _ _ _ = _ at h
        unfold EStateM.bind at h
        cases hresume : resume ((c.leave rest).report e) with
        | ok _ _ =>
          simp only [hresume] at h
          cases h
        | error _ _ =>
          simp only [hresume] at h
          cases h
  · rintro ⟨p, rest, htokens, hdesugar, hmeets, rfl⟩
    rw [(hread rest).2 ⟨p, htokens, hdesugar, hmeets⟩]

/-- What stands in front of the only end token, and the end token itself. -/
theorem append_eq_append_eof {front back ts : List Token} {eof : Token}
    (h : front ++ back = ts ++ [eof]) (hback : Meets [.endOfInput] back)
    (hts : ∀ t ∈ ts, t.kind ≠ .endOfInput) : front = ts ∧ back = [eof] := by
  cases back with
  | nil => exact hback.elim
  | cons t rest =>
    rw [meets_cons, List.mem_singleton] at hback
    rcases rest.eq_nil_or_concat with rfl | ⟨init, last, rfl⟩
    · exact List.append_inj' h rfl
    · -- a second end token would be among the tokens in front of the last one
      rw [List.concat_eq_append, ← List.cons_append, ← List.append_assoc] at h
      have hinit := (List.append_inj' h rfl).1
      exact absurd hback (hts t (hinit ▸ by simp))

/-- **What is read is the program that the tokens are.** The statements answered for tokens with one
end token, behind all others, are those of exactly one program with these tokens; the cursor then
stands at the end token, and nothing was reported. -/
theorem existsUnique_program_of_readProgram {ts : List Token} (eof : Mark .endOfInput)
    (ledger : Ledger) (hts : ∀ t ∈ ts, t.kind ≠ .endOfInput) {statements : List Stmt} {c : Cursor}
    (h : readProgram { tokens := ts ++ [eof.token], ledger } = .ok (some statements) c) :
    (∃! p : Program, p.tokens = ts ∧ p.desugar = statements) ∧
      c = { tokens := ts ++ [eof.token], position := ts.length, ledger } := by
  obtain ⟨p, rest, htokens, hdesugar, hmeets, rfl⟩ := readProgram_eq_some_iff.1 h
  obtain ⟨rfl, rfl⟩ := append_eq_append_eof (htokens.symm.trans (by rfl)) hmeets hts
  -- the tokens alone determine the program
  refine ⟨⟨p, ⟨rfl, hdesugar⟩, ?_⟩, ?_⟩
  · rintro p' ⟨htokens', -⟩
    exact Program.eq_of_tokens htokens'
  · simp [leave]

/-- A conditional with both branches, read as the one program that its tokens are. -/
theorem existsUnique_program_of_conditional :
    let ifWord : Token := ⟨.keyword .ifWord, "if", none, 1⟩
    let opening : Token := ⟨.leftParen, "(", none, 1⟩
    let name : Token := ⟨.identifier, "a", none, 1⟩
    let closing : Token := ⟨.rightParen, ")", none, 1⟩
    let equals : Token := ⟨.equal, "=", none, 1⟩
    let nilWord : Token := ⟨.keyword .nilWord, "nil", none, 1⟩
    let semicolon : Token := ⟨.semicolon, ";", none, 1⟩
    let elseWord : Token := ⟨.keyword .elseWord, "else", none, 1⟩
    let printWord : Token := ⟨.keyword .printWord, "print", none, 1⟩
    let ts := [ifWord, opening, name, closing, name, equals, nilWord, semicolon,
      elseWord, printWord, name, semicolon]
    let statements := [.branch (.reference name) (.expression (.assign name (.literal (some .nil))))
      (some (.print (.reference name)))]
    let eof : Token := ⟨.endOfInput, "", none, 1⟩
    Cursor.readProgram ⟨ts ++ [eof], 0, .resumed, {}⟩ =
        .ok (some statements) ⟨ts ++ [eof], 12, .resumed, {}⟩ ∧
      ∃! p : Program, p.tokens = ts ∧ p.desugar = statements :=
  ⟨rfl, (existsUnique_program_of_readProgram (.ofKind (t := ⟨.endOfInput, "", none, 1⟩) rfl) {}
    (by decide) rfl).1⟩

/-- **Every program is read.** In front of its tokens and an end token a cursor answers its
statements and moves to the end token, and nothing is reported. -/
theorem readProgram_tokens (p : Program) (eof : Mark .endOfInput) (ledger : Ledger) :
    readProgram { tokens := p.tokens ++ [eof.token], ledger } =
      .ok (some p.desugar)
        { tokens := p.tokens ++ [eof.token], position := p.tokens.length, ledger } := by
  rw [readProgram_eq_some_iff]
  exact ⟨p, [eof.token], rfl, rfl, eof.kind_mem, by simp [leave]⟩

end Cursor

/-! ## Answers to any tokens -/

namespace Grammar

/-- The statements that tokens are read as. -/
def statements? (ts : List Token) : Option (List Stmt) :=
  match program ts.length ts with
  | .ok statements _ => some statements
  | .error _ _ => none

/-- The syntax error that tokens are rejected with. -/
def syntaxError? (ts : List Token) : Option SyntaxError :=
  match program ts.length ts with
  | .error (.error e) _ => some e
  | _ => none

/-- Tokens are rejected exactly if they are not read. -/
theorem syntaxError?_eq_none_iff {ts : List Token} (hts : Ended ts) :
    syntaxError? ts = none ↔ ∃ statements, statements? ts = some statements := by
  have h := settles_program ts.length ts hts (Nat.le_refl _)
  unfold syntaxError? statements?
  cases hprogram : program ts.length ts with
  | ok statements rest => simp
  | error e rest =>
    cases e with
    | error e => simp
    | endOfTokens =>
      -- the rule does not run out of tokens
      rw [hprogram] at h
      exact h.elim

/-- In front of the only end token statements are read exactly if they are those of a program with
these tokens. -/
theorem statements?_append_eq_some_iff {front : List Token} {eof : Token}
    (hfront : ∀ t ∈ front, t.kind ≠ .endOfInput) (heof : eof.kind = .endOfInput)
    {statements : List Stmt} :
    statements? (front ++ [eof]) = some statements ↔
      ∃ p : Surface.Program, p.tokens = front ∧ p.desugar = statements := by
  have hread : ∀ rest, program (front ++ [eof]).length (front ++ [eof]) = .ok statements rest ↔
      ∃ p : Surface.Program, front ++ [eof] = p.tokens ++ rest ∧ p.desugar = statements ∧
        Surface.Meets [.endOfInput] rest := fun _ => Surface.program_eq_ok_iff (Nat.le_refl _)
  unfold statements?
  constructor
  · intro h
    cases hprogram : program (front ++ [eof]).length (front ++ [eof]) with
    | ok found rest =>
      rw [hprogram] at h
      cases h
      obtain ⟨p, htokens, hdesugar, hmeets⟩ := (hread rest).1 hprogram
      exact ⟨p, (Cursor.append_eq_append_eof htokens.symm hmeets hfront).1, hdesugar⟩
    | error e rest =>
      rw [hprogram] at h
      cases h
  · rintro ⟨p, rfl, hdesugar⟩
    rw [(hread [eof]).2 ⟨p, rfl, hdesugar, List.mem_singleton.2 heof⟩]

end Grammar

/-- A boundary lies ahead if the end token does. -/
theorem Recovery.exists_landing?_eq {rest : List Token} (h : Ended rest) (t : Token) :
    ∃ n, landing? t rest = some n := by
  induction rest generalizing t with
  | nil =>
    obtain ⟨_, hmem, -⟩ := h
    cases hmem
  | cons next rest ih =>
    unfold landing?
    by_cases hboundary : isBoundary t.kind next.kind = true
    · exact ⟨0, if_pos hboundary⟩
    · -- the end token is a boundary, so this is not the end token
      have hkind : next.kind ≠ .endOfInput := by
        intro heof
        simp [isBoundary, heof] at hboundary
      obtain ⟨n, hn⟩ := ih (h.of_cons hkind) next
      exact ⟨n + 1, by rw [if_neg hboundary, hn]; rfl⟩

namespace Cursor

open Grammar

/-- Moved to the end of its tokens, a cursor has that end left. -/
theorem rest_leave {c : Cursor} {rest : List Token} (h : rest <:+ c.tokens) :
    (c.leave rest).rest = rest := by
  obtain ⟨front, htokens⟩ := h
  unfold leave Cursor.rest
  simp only [← htokens, List.length_append, Nat.add_sub_cancel, List.drop_left]

/-- Recovery ends wherever the end token lies ahead, and reports nothing. -/
theorem exists_resume_eq_ok {c : Cursor} (h : Ended c.rest) :
    ∃ c', resume c = .ok () c' ∧ c'.ledger = c.ledger := by
  obtain ⟨t, more, hcons⟩ := h.exists_cons
  unfold resume
  rw [hcons] at h ⊢
  by_cases hkind : t.kind = .endOfInput
  · simp only [if_pos hkind]
    exact ⟨_, rfl, rfl⟩
  · obtain ⟨n, hn⟩ := Recovery.exists_landing?_eq (h.of_cons hkind) t
    simp only [if_neg hkind, hn]
    exact ⟨_, rfl, rfl⟩

/-- **Any tokens with an end token among them are answered**: with the statements that they are read
as, or with nothing and one report. -/
theorem exists_readProgram_eq_ok {tokens : List Token} (h : Ended tokens) (ledger : Ledger) :
    ∃ c, readProgram { tokens := tokens, ledger := ledger } = .ok (statements? tokens) c ∧
      c.ledger = (syntaxError? tokens).elim ledger ledger.rejected := by
  have hsettled := settles_program tokens.length tokens h (Nat.le_refl _)
  unfold readProgram run statements? syntaxError?
  simp only [Cursor.rest, List.drop_zero]
  cases hprogram : program tokens.length tokens with
  | ok statements rest => exact ⟨_, rfl, rfl⟩
  | error e rest =>
    rw [hprogram] at hsettled
    cases e with
    | endOfTokens => exact hsettled.elim
    | error e =>
      let c : Cursor := { tokens := tokens, ledger := ledger }
      -- recovery starts from what the rule left, and the end token is still ahead there
      have hrest : ((c.leave rest).report e).rest = rest := c.rest_leave hsettled.isSuffix
      have hended : Ended ((c.leave rest).report e).rest := by
        rw [hrest]
        exact hsettled.ended h
      obtain ⟨c', hresume, hledger⟩ := exists_resume_eq_ok hended
      refine ⟨c', ?_, hledger⟩
      show EStateM.bind _ _ _ = _
      simp only [EStateM.bind]
      rw [hresume]
      rfl

end Cursor

end Lox
