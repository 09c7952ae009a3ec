import Lox.Proofs.Run.Blind
import Lox.Proofs.Run.Rounds
import Lox.Proofs.Session.Soundness
import Lox.Proofs.Source.Cutting

/-! # Errors gate execution

A run that returns is refused, clean or aborted. A refused program has done nothing but report what
is wrong with it; a clean one has reported nothing and executed every statement; an aborted one has
reported one runtime error, and what it printed and bound is what the program cut off behind the
failing statement prints and binds.

* **`Source.exists_take`** — a source can be cut off behind each of its statements;
* **`Session.run_eq_of_le`** — a run that returns does the same with more rounds;
* **`Session.Refused`**, **`Session.Clean`**, **`Session.Aborted`** — the three cases;
* **`Session.exactly_one_of_run`** — every run that returns is in exactly one of them. -/

namespace Lox

/-! ## Cutting a program off -/

/-- The program trees of declarations in two parts are those of each. -/
theorem Surface.Declaration.exists_of_desugarAll_eq_append {ds : List Surface.Declaration}
    {front back : List Stmt} (h : desugarAll ds = front ++ back) :
    ∃ ds₁ ds₂, ds = ds₁ ++ ds₂ ∧ desugarAll ds₁ = front := by
  induction ds generalizing front with
  | nil =>
    obtain ⟨rfl, -⟩ := List.append_eq_nil_iff.1 h.symm
    exact ⟨[], [], rfl, rfl⟩
  | cons d ds ih =>
    cases front with
    | nil => exact ⟨[], d :: ds, rfl, rfl⟩
    | cons s front =>
      rw [desugarAll, List.cons_append, List.cons.injEq] at h
      obtain ⟨rfl, hrest⟩ := h
      obtain ⟨ds₁, ds₂, rfl, hfront⟩ := ih hrest
      exact ⟨d :: ds₁, ds₂, rfl, by rw [desugarAll, hfront]⟩

namespace Source

/-- A source whose pieces make up a program, and nothing else, is accepted with its statements. -/
theorem accepted_of_program {source : Source} (herrors : source.lexicalErrors = [])
    {p : Surface.Program} (htokens : p.tokens = source.body) :
    source.Accepted ∧ source.statements = p.desugar := by
  have hbody : ∀ t ∈ source.body, t.kind ≠ .endOfInput :=
    fun t ht => (scanned_of_mem_body ht).kind_ne
  have hread : Grammar.statements? source.tokens = some p.desugar := by
    rw [tokens_eq]
    exact (Grammar.statements?_append_eq_some_iff hbody (kind_endToken source)).2
      ⟨p, htokens, rfl⟩
  refine ⟨⟨herrors, ?_⟩, by rw [statements, hread]; rfl⟩
  rw [syntaxErrors, (Grammar.syntaxError?_eq_none_iff source.ended_tokens).2 ⟨_, hread⟩]
  rfl

/-- **A source can be cut off behind each of its statements**: what is in front of the cut is a
program of the statements up to there. -/
theorem exists_take {source : Source} (h : source.Accepted) {front back : List Stmt}
    (hfront : source.statements = front ++ back) :
    ∃ n, Accepted (source.take n) ∧ statements (source.take n) = front := by
  obtain ⟨p, htokens, hdesugar, -⟩ := exists_program_of_syntaxErrors_eq_nil h.2
  obtain ⟨ds₁, ds₂, hds, rfl⟩ :=
    Surface.Declaration.exists_of_desugarAll_eq_append (hdesugar.trans hfront)
  -- the tokens are cut where the first declarations end, and the pieces where these tokens do
  have hsplit : tokensOf 1 (pieces source) =
      Surface.Declaration.allTokens ds₁ ++ Surface.Declaration.allTokens ds₂ := by
    rw [← Surface.Declaration.allTokens_append, ← hds]
    exact htokens.symm
  obtain ⟨ps₁, ps₂, hpieces, hps₁⟩ := exists_pieces_of_tokensOf hsplit
  have herrors : errorsOf 1 (ps₁ ++ ps₂) = [] := by
    rw [← hpieces, ← toList_errors_scan]
    exact h.1
  rw [errorsOf_append, List.append_eq_nil_iff] at herrors
  have htext : (ps₁.map Piece.text).flatten ++ (ps₂.map Piece.text).flatten = source := by
    rw [← List.flatten_append, ← List.map_append, ← hpieces, flatten_pieces]
  -- what is in front of the cut is scanned into the same pieces as before
  have hcut : pieces (source.take (ps₁.map Piece.text).flatten.length) = ps₁ := by
    have htake : source.take (ps₁.map Piece.text).flatten.length =
        (ps₁.map Piece.text).flatten := by
      conv => lhs; rw [← htext]
      exact List.take_left
    have hsource : pieces ((ps₁.map Piece.text).flatten ++ (ps₂.map Piece.text).flatten) =
        ps₁ ++ ps₂ := by rw [htext, hpieces]
    rw [htake]
    have hclosed : ∀ e ∈ errorsOf 1 ps₁, e.kind ≠ .unterminatedString := by
      rw [herrors.1]
      exact nofun
    exact (pieces_flatten_append (kind_ne_unterminated hclosed) hsource).1
  refine ⟨(ps₁.map Piece.text).flatten.length, ?_⟩
  have hproper : Surface.Declaration.AllProper ds₁ :=
    ((Surface.Declaration.allProper_append_iff ds₁ ds₂).1 (hds ▸ p.proper)).1
  refine accepted_of_program (p := ⟨ds₁, hproper⟩) ?_ ?_
  · rw [lexicalErrors, toList_errors_scan, hcut]
    exact herrors.1
  · rw [body, hcut, hps₁]
    rfl

end Source

namespace Session

/-! ## More rounds -/

/-- Statements that end within their rounds are run in the same way with more of them. -/
theorem runStatements_eq_of_le {fuel rounds : Nat} (hle : fuel ≤ rounds) (statements : List Stmt)
    (s : Session) :
    (∃ s', runStatements fuel statements s = .error .exhausted s') ∨
      runStatements fuel statements s = runStatements rounds statements s := by
  unfold runStatements
  rcases Run.within_program hle statements s.machine with ⟨m', hstop⟩ | hsame
  · rw [hstop]
    exact .inl ⟨_, rfl⟩
  · rw [hsame]
    exact .inr rfl

/-- **A run that ends within its rounds** is the same with more of them. -/
theorem run_eq_of_le {fuel rounds : Nat} (hle : fuel ≤ rounds) (source : Source) (s : Session) :
    (∃ s', run fuel source s = .error .exhausted s') ∨
      run fuel source s = run rounds source s := by
  cases herror : (s.ledger.reported source).hadError with
  | true => exact .inr (by rw [run_eq_of_hadError herror, run_eq_of_hadError herror])
  | false =>
    obtain ⟨hclear, haccepted⟩ := hadError_reported_eq_false_iff.1 herror
    rw [run_eq_of_accepted hclear haccepted, run_eq_of_accepted hclear haccepted]
    exact runStatements_eq_of_le hle source.statements (s.afterReading source)

/-! ## The three cases -/

/-- **A refused run.** An error was reported before, or something is wrong with the source. The
lexical errors are reported in order, then the syntax error if there is one; nothing is printed or
bound, and there is no result. -/
structure Refused (source : Source) (s : Session) (result : Option Value) (s' : Session) :
    Prop where
  reason : s.ledger.hadError = true ∨ source.lexicalErrors ≠ [] ∨ source.syntaxErrors ≠ []
  messages : s'.ledger.messages = s.ledger.messages ++
    (source.lexicalErrors.map LexicalError.render ++
      source.syntaxErrors.map SyntaxError.render).toArray
  syntaxErrors_le : source.syntaxErrors.length ≤ 1
  hadError : s'.ledger.hadError = true
  hadRuntimeError : s'.ledger.hadRuntimeError = s.ledger.hadRuntimeError
  output : s'.machine.output = s.machine.output
  chain : s'.machine.chain = s.machine.chain
  result_eq : result = none

/-- **A clean run.** Nothing is reported, and every statement was executed, one after the other. -/
structure Clean (fuel : Nat) (source : Source) (s : Session) (result : Option Value)
    (s' : Session) : Prop where
  hadError : s.ledger.hadError = false
  accepted : source.Accepted
  ledger : s'.ledger = s.ledger
  executed : ∃ m, Run.program fuel source.statements (s.afterReading source).machine
      = .ok result m ∧
    Run.executeAll fuel source.statements (s.afterReading source).machine = .ok () m ∧
    s'.machine.output = m.output ∧ s'.machine.chain = m.chain

/-- Runs of a program that begins with the given statements all return nothing, and with the same
reports, output and bindings, with these rounds and with more. -/
def EndsBehind (fuel : Nat) (statements : List Stmt) (s s' : Session) : Prop :=
  ∀ (source : Source) (rounds : Nat), fuel ≤ rounds → source.Accepted →
    statements <+: source.statements →
      ∃ s'', run rounds source s = .ok none s'' ∧ s''.ledger = s'.ledger ∧
        s''.machine.output = s'.machine.output ∧ s''.machine.chain = s'.machine.chain

/-- **An aborted run.** One of the statements failed behind the ones before it, and its runtime
error is the only report. There is no result, and the output and the bindings are those of every
program that begins with the statements up to the failing one: of the source cut off behind it, and
of whatever else follows. -/
structure Aborted (fuel : Nat) (source : Source) (s : Session) (result : Option Value)
    (s' : Session) : Prop where
  hadError : s.ledger.hadError = false
  accepted : source.Accepted
  result_eq : result = none
  failed : ∃ before failing after mid e m, source.statements = before ++ failing :: after ∧
    Run.executeAll fuel before (s.afterReading source).machine = .ok () mid ∧
    Run.execute fuel failing mid = .error (.error e) m ∧
    s'.machine.output = m.output ∧ s'.machine.chain = m.chain ∧
    s'.ledger.messages = s.ledger.messages.push e.render ∧
    s'.ledger.hadRuntimeError = true ∧ s'.ledger.hadError = false ∧
    EndsBehind fuel (before ++ [failing]) s s' ∧
    ∃ n, Source.Accepted (source.take n) ∧
      Source.statements (source.take n) = before ++ [failing]

/-! ## Every run is in one of them -/

variable {fuel : Nat} {source : Source} {s s' : Session} {result : Option Value}

/-- A run with an error to report, or behind one, is refused. -/
theorem refused_afterReading (h : (s.ledger.reported source).hadError = true) :
    Refused source s none (s.afterReading source) where
  reason := by
    rw [← Bool.not_eq_false, hadError_reported_eq_false_iff, Source.Accepted] at h
    by_cases herror : s.ledger.hadError = true
    · exact .inl herror
    · by_cases hlexical : source.lexicalErrors = []
      · refine .inr (.inr fun hsyntax => h ⟨?_, hlexical, hsyntax⟩)
        exact Bool.not_eq_true _ ▸ herror
      · exact .inr (.inl hlexical)
  messages := by
    show (s.ledger.reported source).messages = _
    rw [Ledger.reported_eq]
    rfl
  syntaxErrors_le := by
    unfold Source.syntaxErrors
    cases Grammar.syntaxError? source.tokens <;> simp
  hadError := h
  hadRuntimeError := by
    show (s.ledger.reported source).hadRuntimeError = _
    rw [Ledger.reported_eq]
  output := rfl
  chain := rfl
  result_eq := rfl

/-- A session reads sources alike but for its trace. -/
theorem alike_afterReading (s : Session) (source source' : Source) :
    (s.afterReading source).machine.Alike (s.afterReading source').machine :=
  ⟨by simp, by simp, by simp⟩

/-- Statements that stop at a runtime error are run to there, whatever follows them and whatever
source they come from. -/
theorem endsBehind_of_program_eq_error (hclear : s.ledger.hadError = false)
    {statements : List Stmt} {e : RuntimeError} {m : Machine}
    (h : Run.program fuel statements (s.afterReading source).machine = .error (.error e) m)
    (hledger : s'.ledger = s.ledger.aborted e) (houtput : s'.machine.output = m.output)
    (hchain : s'.machine.chain = m.chain) : EndsBehind fuel statements s s' := by
  rintro source' rounds hle haccepted ⟨after, hstatements⟩
  obtain ⟨before, failing, rest, mid, rfl, hbefore, hfailing⟩ := Run.program_eq_error_iff.1 h
  -- whatever follows is behind the failing statement and is not reached
  have hprogram : Run.program fuel source'.statements (s.afterReading source).machine =
      .error (.error e) m := by
    rw [Run.program_eq_error_iff]
    refine ⟨before, failing, rest ++ after, mid, ?_, hbefore, hfailing⟩
    rw [← hstatements, List.append_assoc, List.cons_append]
  -- reading another source leaves another entry, which no run looks at
  have halike := Run.blind_program fuel source'.statements _ _ (alike_afterReading s source source')
  rw [hprogram] at halike
  cases hres : Run.program fuel source'.statements (s.afterReading source').machine with
  | ok v m' =>
    rw [hres] at halike
    exact halike.elim
  | error stop m' =>
    rw [hres] at halike
    obtain ⟨rfl, hm⟩ := halike
    have hrun : ∃ s'', run fuel source' s = .ok none s'' ∧ s''.ledger = s'.ledger ∧
        s''.machine.output = s'.machine.output ∧ s''.machine.chain = s'.machine.chain := by
      rw [run_eq_of_accepted hclear haccepted]
      unfold runStatements
      rw [hres]
      refine ⟨_, rfl, ?_, ?_, ?_⟩
      · rw [hledger, ← ledger_afterReading (s := s) haccepted]
      · exact hm.output.symm.trans houtput.symm
      · exact hm.chain.symm.trans hchain.symm
    obtain ⟨s'', hreturns, hsame⟩ := hrun
    rcases run_eq_of_le hle source' s with ⟨_, hstop⟩ | hmore
    · rw [hreturns] at hstop
      cases hstop
    · exact ⟨s'', hmore ▸ hreturns, hsame⟩

/-- A run that returns is refused, clean or aborted. -/
theorem refused_or_clean_or_aborted (h : run fuel source s = .ok result s') :
    Refused source s result s' ∨ Clean fuel source s result s' ∨
      Aborted fuel source s result s' := by
  cases herror : (s.ledger.reported source).hadError with
  | true =>
    rw [run_eq_of_hadError herror] at h
    cases h
    exact .inl (refused_afterReading herror)
  | false =>
    obtain ⟨hclear, haccepted⟩ := hadError_reported_eq_false_iff.1 herror
    have hledger : (s.afterReading source).ledger = s.ledger := ledger_afterReading haccepted
    rw [run_eq_of_accepted hclear haccepted] at h
    unfold runStatements at h
    cases hprogram : Run.program fuel source.statements (s.afterReading source).machine with
    | ok v m =>
      rw [hprogram] at h
      cases h
      refine .inr (.inl ⟨hclear, haccepted, hledger, m, hprogram, ?_, rfl, rfl⟩)
      exact Run.executeAll_of_program hprogram
    | error stop m =>
      rw [hprogram] at h
      cases stop with
      | error e =>
        cases h
        obtain ⟨before, failing, after, mid, hstatements, hbefore, hfailing⟩ :=
          Run.program_eq_error_iff.1 hprogram
        -- the program cut off behind the failing statement fails in the same way
        have hcut : Run.program fuel (before ++ [failing]) (s.afterReading source).machine =
            .error (.error e) m :=
          Run.program_eq_error_iff.2 ⟨before, failing, [], mid, rfl, hbefore, hfailing⟩
        refine .inr (.inr ⟨hclear, haccepted, rfl, before, failing, after, mid, e, m,
          hstatements, hbefore, hfailing, rfl, rfl, ?_, rfl, ?_, ?_, ?_⟩)
        · rw [Ledger.messages_aborted, hledger]
        · show (s.afterReading source).ledger.hadError = false
          rw [hledger, hclear]
        · exact endsBehind_of_program_eq_error hclear hcut (by rw [hledger]) rfl rfl
        · have hsplit : source.statements = (before ++ [failing]) ++ after := by
            rw [hstatements, List.append_assoc, List.singleton_append]
          exact Source.exists_take haccepted hsplit
      | fault f => cases h
      | exhausted => cases h

/-- A refused run is not one of an accepted source behind no error. -/
theorem Refused.not_accepted (h : Refused source s result s') (hclear : s.ledger.hadError = false)
    (haccepted : source.Accepted) : False := by
  rcases h.reason with herror | hlexical | hsyntax
  · rw [hclear] at herror
    cases herror
  · exact hlexical haccepted.1
  · exact hsyntax haccepted.2

/-- A clean run reports nothing, an aborted one does. -/
theorem Clean.not_aborted (h : Clean fuel source s result s')
    (h' : Aborted fuel source s result s') : False := by
  obtain ⟨_, _, _, _, e, _, -, -, -, -, -, hmessages, -⟩ := h'.failed
  have hsize := congrArg Array.size hmessages
  rw [h.ledger, Array.size_push] at hsize
  omega

/-- **Every run that returns is in exactly one of the three cases.** -/
theorem exactly_one_of_run (h : run fuel source s = .ok result s') :
    (Refused source s result s' ∧ ¬ Clean fuel source s result s' ∧
        ¬ Aborted fuel source s result s') ∨
      (¬ Refused source s result s' ∧ Clean fuel source s result s' ∧
        ¬ Aborted fuel source s result s') ∨
      (¬ Refused source s result s' ∧ ¬ Clean fuel source s result s' ∧
        Aborted fuel source s result s') := by
  -- no two of the cases go together
  rcases refused_or_clean_or_aborted h with hrefused | hclean | haborted
  · exact .inl ⟨hrefused, fun hc => hrefused.not_accepted hc.hadError hc.accepted,
      fun ha => hrefused.not_accepted ha.hadError ha.accepted⟩
  · exact .inr (.inl ⟨fun hr => hr.not_accepted hclean.hadError hclean.accepted, hclean,
      hclean.not_aborted⟩)
  · exact .inr (.inr ⟨fun hr => hr.not_accepted haborted.hadError haborted.accepted,
      fun hc => hc.not_aborted haborted, haborted⟩)

end Session

end Lox
