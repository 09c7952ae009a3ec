import Lox.Proofs.Grammar.Reading
import Lox.Proofs.Source.Tokens
import Lox.Session

/-! # What a session reads

Reading a program never fails. It reports the lexical errors of the source in order, then the syntax
error of its tokens if there is one, and answers the statements unless an error has been reported.

* **`Source.lexicalErrors`**, **`Source.syntaxErrors`** — what is wrong with a source;
* **`Source.statements`** — the statements of a source with nothing wrong in it;
* **`Session.readProgram_eq`** — the answer, and what is left behind;
* **`Session.run_eq_of_hadError`**, **`Session.run_eq_of_accepted`** — hence what is run. -/

namespace Lox

/-! ## What is wrong with a source -/

namespace Source

/-- The tokens of a source, the end token included. -/
def tokens (source : Source) : List Token := (scan source).tokens.toList

/-- The lexical errors of a source, in order. -/
def lexicalErrors (source : Source) : List LexicalError := (scan source).errors.toList

/-- The syntax error of a source, if it has one. -/
def syntaxErrors (source : Source) : List SyntaxError :=
  (Grammar.syntaxError? source.tokens).toList

/-- Nothing is wrong with a source. -/
def Accepted (source : Source) : Prop := source.lexicalErrors = [] ∧ source.syntaxErrors = []

/-- The statements that the tokens of a source are read as, none if they are rejected. -/
def statements (source : Source) : List Stmt :=
  (Grammar.statements? source.tokens).getD []

/-- The tokens of a source in front of the end token. -/
def body (source : Source) : List Token := tokensOf 1 (pieces source)

/-- The tokens of a source are those of its pieces with the end token behind them. -/
theorem tokens_eq (source : Source) : source.tokens = source.body ++ [endToken source] :=
  toList_tokens_scan source

/-- The tokens in front of the end token have their literals, and none of them is an end token. -/
theorem scanned_of_mem_body {source : Source} {t : Token} (h : t ∈ source.body) : t.Scanned :=
  scanned_of_mem_tokensOf (fun _ hp => Piece.formed_of_mem_pieces hp) h

/-- An end token lies ahead of the first token. -/
theorem ended_tokens (source : Source) : Ended source.tokens := by
  refine ⟨endToken source, ?_, kind_endToken source⟩
  rw [tokens_eq]
  exact List.mem_append_right _ (List.mem_singleton_self _)

/-- Tokens with no syntax error are those of a program. -/
theorem exists_program_of_syntaxErrors_eq_nil {source : Source} (h : source.syntaxErrors = []) :
    ∃ p : Surface.Program, p.tokens = source.body ∧ p.desugar = source.statements ∧
      Grammar.statements? source.tokens = some source.statements := by
  have hnone : Grammar.syntaxError? source.tokens = none := by
    unfold syntaxErrors at h
    cases herror : Grammar.syntaxError? source.tokens with
    | none => rfl
    | some e =>
      rw [herror] at h
      cases h
  obtain ⟨found, hfound⟩ := (Grammar.syntaxError?_eq_none_iff source.ended_tokens).1 hnone
  -- what is read is what the statements of the source are
  have hstatements : source.statements = found := by rw [statements, hfound]; rfl
  have hbody : ∀ t ∈ source.body, t.kind ≠ .endOfInput :=
    fun t ht => (scanned_of_mem_body ht).kind_ne
  rw [hstatements]
  refine (Grammar.statements?_append_eq_some_iff hbody (kind_endToken source)).1 ?_ |>.elim
    fun p hp => ⟨p, hp.1, hp.2, hfound⟩
  rw [← tokens_eq, hfound]

end Source

/-! ## Reports -/

/-- The ledger behind the reports of a source. -/
def Ledger.reported (source : Source) (l : Ledger) : Ledger :=
  source.syntaxErrors.foldl (fun l e => l.rejected e)
    (source.lexicalErrors.foldl (fun l e => l.lexical e) l)

namespace Ledger

/-- Lexical errors are added in order, and any one sets the flag. -/
theorem foldl_lexical (es : List LexicalError) (l : Ledger) :
    es.foldl (fun l e => l.lexical e) l =
      { l with
        messages := l.messages ++ (es.map LexicalError.render).toArray
        written := l.written ++ (es.map LexicalError.render).toArray
        hadError := l.hadError || !es.isEmpty } := by
  induction es generalizing l with
  | nil => simp
  | cons e es ih =>
    rw [List.foldl_cons, ih]
    simp [lexical, emit]

/-- Syntax errors are added in order, and any one sets the flag. -/
theorem foldl_rejected (es : List SyntaxError) (l : Ledger) :
    es.foldl (fun l e => l.rejected e) l =
      { l with
        messages := l.messages ++ (es.map SyntaxError.render).toArray
        written := l.written ++ (es.map SyntaxError.render).toArray
        hadError := l.hadError || !es.isEmpty } := by
  induction es generalizing l with
  | nil => simp
  | cons e es ih =>
    rw [List.foldl_cons, ih]
    simp [rejected, emit]

/-- The messages of a source: its lexical errors in order, then its syntax error. -/
def messagesOf (source : Source) : List String :=
  source.lexicalErrors.map LexicalError.render ++ source.syntaxErrors.map SyntaxError.render

/-- **The reports of a source** are its messages, and they set the flag of lexical and syntax errors
only. -/
theorem reported_eq (source : Source) (l : Ledger) :
    l.reported source =
      { l with
        messages := l.messages ++ (messagesOf source).toArray
        written := l.written ++ (messagesOf source).toArray
        hadError := l.hadError || !(messagesOf source).isEmpty } := by
  unfold reported
  rw [foldl_lexical, foldl_rejected]
  -- the two lists of errors are both empty exactly if there is no message
  have hempty : (messagesOf source).isEmpty =
      (source.lexicalErrors.isEmpty && source.syntaxErrors.isEmpty) := by
    unfold messagesOf
    cases source.lexicalErrors <;> cases source.syntaxErrors <;> rfl
  rw [hempty]
  simp [messagesOf, Bool.or_assoc]

/-- A source has no messages exactly if nothing is wrong with it. -/
theorem messagesOf_eq_nil_iff {source : Source} : messagesOf source = [] ↔ source.Accepted := by
  simp [messagesOf, Source.Accepted]

end Ledger

/-! ## Reading -/

namespace Session

/-- What reading a source leaves behind: its reports, and an entry in the trace. -/
def afterReading (source : Source) (s : Session) : Session :=
  { s with
    ledger := s.ledger.reported source
    machine := { s.machine with
      trace := s.machine.trace.note 1 fun _ =>
        "scanned " ++ toString source.tokens.length ++ " tokens, parsed " ++
          countText (Grammar.statements? source.tokens) ++ " statements" } }

@[simp] theorem chain_afterReading (source : Source) (s : Session) :
    (s.afterReading source).machine.chain = s.machine.chain := rfl

@[simp] theorem output_afterReading (source : Source) (s : Session) :
    (s.afterReading source).machine.output = s.machine.output := rfl

@[simp] theorem level_afterReading (source : Source) (s : Session) :
    (s.afterReading source).machine.trace.level = s.machine.trace.level :=
  Trace.level_note _ _ _

/-- **Reading a program never fails**, and answers its statements unless an error has been
reported, be it of this program or of an earlier one. -/
theorem readProgram_eq (source : Source) (s : Session) :
    readProgram source s =
      .ok (if (s.ledger.reported source).hadError then none
        else Grammar.statements? source.tokens) (s.afterReading source) := by
  -- the lexical errors are reported first, and reading goes on behind them
  let lexed : Ledger := source.lexicalErrors.foldl (fun l e => l.lexical e) s.ledger
  have htokens : readTokens source s = .ok source.tokens { s with ledger := lexed } := by
    show EStateM.Result.ok _ _ = _
    simp only [lexed, Source.lexicalErrors, Array.foldl_toList]
    rfl
  obtain ⟨c, hread, hledger⟩ := Cursor.exists_readProgram_eq_ok source.ended_tokens lexed
  have hreported : c.ledger = s.ledger.reported source := by
    rw [hledger]
    unfold Ledger.reported Source.syntaxErrors
    cases Grammar.syntaxError? source.tokens <;> rfl
  -- the syntax error, if there is one, is reported behind them
  have hon : onTokens source.tokens Cursor.readProgram { s with ledger := lexed } =
      .ok (Grammar.statements? source.tokens) { s with ledger := s.ledger.reported source } := by
    unfold onTokens
    rw [hread]
    simp only [hreported]
  unfold readProgram
  rw [bind_eq_ok_iff]
  refine ⟨_, _, htokens, ?_⟩
  rw [bind_eq_ok_iff]
  exact ⟨_, _, hon, rfl⟩

variable {fuel : Nat} {source : Source} {s : Session}

/-- A program with an error, or behind one, is not run. -/
theorem run_eq_of_hadError (h : (s.ledger.reported source).hadError = true) :
    run fuel source s = .ok none (s.afterReading source) := by
  unfold run
  rw [bind_eq_ok_iff]
  refine ⟨none, s.afterReading source, ?_, rfl⟩
  rw [readProgram_eq, if_pos h]

/-- No error is reported exactly if there was none and nothing is wrong with the source. -/
theorem hadError_reported_eq_false_iff {l : Ledger} :
    (l.reported source).hadError = false ↔ l.hadError = false ∧ source.Accepted := by
  rw [Ledger.reported_eq, ← Ledger.messagesOf_eq_nil_iff]
  simp

/-- **A program is read exactly if nothing is wrong with it** and no error was reported before; what
is read are its statements. -/
theorem readProgram_eq_some_iff {statements : List Stmt} {s' : Session} :
    readProgram source s = .ok (some statements) s' ↔
      (s.ledger.hadError = false ∧ source.Accepted) ∧
        statements = source.statements ∧ s' = s.afterReading source := by
  rw [readProgram_eq, EStateM.Result.ok.injEq, ← hadError_reported_eq_false_iff,
    eq_comm (b := s')]
  cases herror : (s.ledger.reported source).hadError with
  | true => simp
  | false =>
    obtain ⟨-, -, -, hstatements⟩ := Source.exists_program_of_syntaxErrors_eq_nil
      (hadError_reported_eq_false_iff.1 herror).2.2
    rw [hstatements]
    simp [eq_comm]

/-- **A program without errors is run.** -/
theorem run_eq_of_accepted (hclear : s.ledger.hadError = false) (h : source.Accepted) :
    run fuel source s = runStatements fuel source.statements (s.afterReading source) := by
  have hread := readProgram_eq_some_iff.2 ⟨⟨hclear, h⟩, rfl, rfl⟩
  show EStateM.bind _ _ _ = _
  unfold EStateM.bind
  rw [hread]

/-- A program without errors reports nothing before it is run. -/
theorem ledger_afterReading (h : source.Accepted) :
    (s.afterReading source).ledger = s.ledger := by
  show s.ledger.reported source = s.ledger
  rw [Ledger.reported_eq, Ledger.messagesOf_eq_nil_iff.2 h]
  simp

end Session

end Lox
