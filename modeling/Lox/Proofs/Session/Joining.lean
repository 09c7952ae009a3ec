import Lox.Proofs.Grammar.Rejection
import Lox.Proofs.Session.Endings
import Lox.Proofs.Session.Gating
import Lox.Proofs.Source.Restarting

/-! # Running a program in two parts

Two programs with a line end between them are one program: its tokens are those of both, the second
ones on later lines, and its statements are those of both. Running it does what running the first
part and then, in the same session, the second part does; where the first part fails, nothing of the
second one is run.

* **`Source.body_joined`** — the tokens of two sources with a line end between them;
* **`Source.accepted_joined`** — the statements of two programs with a line end between them;
* **`Run.program_append`** — programs run their statements one part after the other;
* **`Session.run_joined`** — runs of both parts at once. -/

namespace Lox

/-! ## Sources in two parts -/

namespace Source

/-- The number of lines of a source: one, and another one for every line end. -/
def lineCount (source : Source) : Nat := 1 + source.count '\n'

variable {source source₁ source₂ : Source}

/-- A source has no lexical errors exactly if its pieces are of patterns. -/
theorem lexicalErrors_eq_nil_iff :
    source.lexicalErrors = [] ↔ ∀ p ∈ pieces source, Pattern p.kind p.text := by
  rw [lexicalErrors, toList_errors_scan]
  exact errorsOf_pieces_eq_nil_iff

/-- Without lexical errors no string of a source is left open. -/
theorem kind_ne_unterminated_of_lexicalErrors (h : source.lexicalErrors = []) :
    ∀ p ∈ pieces source, p.kind ≠ .unterminated :=
  fun p hp => (lexicalErrors_eq_nil_iff.1 h p hp).kind_ne.2

/-- Two sources with a line end between them have no lexical errors if neither has. -/
theorem lexicalErrors_joined (h₁ : source₁.lexicalErrors = []) (h₂ : source₂.lexicalErrors = []) :
    lexicalErrors (source₁ ++ '\n' :: source₂) = [] := by
  rw [lexicalErrors_eq_nil_iff, pieces_joined (kind_ne_unterminated_of_lexicalErrors h₁)]
  intro p hp
  rcases List.mem_append.1 hp with hp | hp
  · exact lexicalErrors_eq_nil_iff.1 h₁ p hp
  · rcases List.mem_cons.1 hp with rfl | hp
    · exact .blank (by decide)
    · exact lexicalErrors_eq_nil_iff.1 h₂ p hp

/-- **Two sources with a line end between them have the tokens of both**, the second ones behind the
lines of the first source. -/
theorem body_joined (h : source₁.lexicalErrors = []) :
    body (source₁ ++ '\n' :: source₂) =
      source₁.body ++ source₂.body.map (Token.moved (· + (source₁.lineCount : Int))) :=
  tokensOf_joined (kind_ne_unterminated_of_lexicalErrors h)

/-- **Two programs with a line end between them are one program** with the statements of both. -/
theorem accepted_joined (h₁ : source₁.Accepted) (h₂ : source₂.Accepted) :
    Accepted (source₁ ++ '\n' :: source₂) ∧
      statements (source₁ ++ '\n' :: source₂) = source₁.statements ++
        Stmt.allMoved (· + (source₁.lineCount : Int)) source₂.statements := by
  let f : Int → Int := (· + (source₁.lineCount : Int))
  obtain ⟨q₁, htokens₁, hdesugar₁, -⟩ := exists_program_of_syntaxErrors_eq_nil h₁.2
  obtain ⟨-, -, -, hread⟩ := exists_program_of_syntaxErrors_eq_nil h₂.2
  -- on its later lines the second part is a program of its own
  have hmoved : Grammar.statements? (source₂.body.map (Token.moved f) ++
      [(endToken source₂).moved f]) = some (Stmt.allMoved f source₂.statements) := by
    have hmap := Grammar.statements?_moved f source₂.ended_tokens
    rwa [hread, tokens_eq, List.map_append, List.map_singleton] at hmap
  have hkinds : ∀ t ∈ source₂.body.map (Token.moved f), t.kind ≠ .endOfInput := by
    intro t ht
    obtain ⟨t', ht', rfl⟩ := List.mem_map.1 ht
    exact (scanned_of_mem_body ht').kind_ne
  obtain ⟨q₂, htokens₂, hdesugar₂⟩ := (Grammar.statements?_append_eq_some_iff hkinds rfl).1 hmoved
  let q : Surface.Program :=
    ⟨q₁.declarations ++ q₂.declarations,
      (Surface.Declaration.allProper_append_iff _ _).2 ⟨q₁.proper, q₂.proper⟩⟩
  have htokens : q.tokens = body (source₁ ++ '\n' :: source₂) := by
    rw [body_joined h₁.1, ← htokens₁, ← htokens₂]
    exact Surface.Declaration.allTokens_append _ _
  obtain ⟨haccepted, hstatements⟩ := accepted_of_program (lexicalErrors_joined h₁.1 h₂.1) htokens
  refine ⟨haccepted, ?_⟩
  rw [hstatements, ← hdesugar₁, ← hdesugar₂]
  exact Surface.Declaration.desugarAll_append _ _

end Source

/-! ## Programs in two parts -/

namespace Run

variable {fuel : Nat} {before : List Stmt} {m m' : Machine} {v : Option Value}

/-- **The second part of a program is run where the first one ends.** -/
theorem program_append_of_eq_ok (h : program fuel before m = .ok v m') (after : List Stmt) :
    program fuel (before ++ after) m = after.foldlM (fun _ s => execute fuel s) v m' := by
  unfold program at h ⊢
  rw [List.foldlM_append]
  exact bind_eq_of_eq_ok h _

/-- Where the first part of a program stops, the program stops. -/
theorem program_append_of_eq_error {stop : Stop} (h : program fuel before m = .error stop m')
    (after : List Stmt) :
    program fuel (before ++ after) m = .error stop m' := by
  unfold program at h ⊢
  rw [List.foldlM_append, bind_eq_error_iff]
  exact .inl h

/-- What a program answers does not depend on what was yielded before, if it has a statement. -/
theorem foldlM_execute_eq_program {statements : List Stmt} (h : statements ≠ [])
    (v : Option Value) :
    statements.foldlM (fun _ s => execute fuel s) v = program fuel statements := by
  obtain ⟨s, rest, rfl⟩ := List.exists_cons_of_ne_nil h
  rfl

end Run

/-! ## Runs in two parts -/

namespace Session

variable {fuel : Nat} {source₁ source₂ : Source} {s s₁ : Session} {v : Option Value}

/-- **A run fails within some statements** that a program begins with: they are executed up to one
of them, which stops at a runtime error, and nothing behind that one is executed. -/
structure FailsWithin (fuel : Nat) (source : Source) (s : Session) (statements : List Stmt)
    (e : RuntimeError) (s' : Session) : Prop where
  run_eq : run fuel source s = .ok none s'
  ledger : s'.ledger = s.ledger.aborted e
  starts : statements <+: source.statements
  failed : ∃ before failing after mid m, statements = before ++ failing :: after ∧
    Run.executeAll fuel before (s.afterReading source).machine = .ok () mid ∧
    Run.execute fuel failing mid = .error (.error e) m ∧
    s'.machine.output = m.output ∧ s'.machine.chain = m.chain

/-- Where the first part ends, the second part goes on. -/
theorem run_joined_of_program_eq_ok (h₁ : source₁.Accepted) (h₂ : source₂.Accepted)
    (hclear : s.ledger.hadError = false) {m : Machine}
    (hprogram : Run.program fuel source₁.statements (s.afterReading source₁).machine = .ok v m)
    (hledger : s₁.ledger = s.ledger) (hmachine : s₁.machine.Alike m) :
    EndAs (fun w w' => source₂.statements ≠ [] → w = w')
      (s.ledger.Aborts (· + (source₁.lineCount : Int))) (run fuel source₂ s₁)
      (run fuel (source₁ ++ '\n' :: source₂) s) := by
  let f : Int → Int := (· + (source₁.lineCount : Int))
  obtain ⟨hjoined, hstatements⟩ := Source.accepted_joined h₁ h₂
  -- the first part ends in the same way when both are read at once
  obtain ⟨m', hprogram', hm⟩ :=
    Run.exists_program_eq_ok (s.alike_afterReading source₁ (source₁ ++ '\n' :: source₂)) hprogram
  have halike : (s₁.afterReading source₂).machine.Alike m' :=
    (alike_of_afterReading s₁ source₂).trans (hmachine.trans hm)
  have hrest := Run.program_append_of_eq_ok hprogram' (Stmt.allMoved f source₂.statements)
  rw [← hstatements] at hrest
  rw [run_eq_of_accepted (hledger ▸ hclear) h₂, run_eq_of_accepted hclear hjoined]
  have hstart : (s₁.afterReading source₂).ledger = s.ledger := by
    rw [ledger_afterReading h₂, hledger]
  have hledgers : (s.afterReading (source₁ ++ '\n' :: source₂)).ledger =
      (s₁.afterReading source₂).ledger := by
    rw [ledger_afterReading hjoined, hstart]
  by_cases hnil : source₂.statements = []
  · -- without a statement the second part answers nothing, and nothing is asked of the answers
    rw [hnil] at hrest ⊢
    obtain ⟨s₂, hrun, hsame, hm₂⟩ := exists_runStatements_of_eq_ok
      (show Run.program fuel [] (s₁.afterReading source₂).machine = .ok none _ from rfl)
    obtain ⟨s', hrun', hsame', hm'⟩ := exists_runStatements_of_eq_ok hrest
    rw [hrun, hrun']
    refine ⟨fun hne => absurd rfl hne, .inl ⟨hsame.trans hstart, ?_⟩,
      hm₂.trans (halike.trans hm'.symm)⟩
    exact hsame'.trans (hledgers.trans hstart)
  · have hends := Run.mirrors_foldlM_execute (f := f) fuel source₂.statements v _ _ halike
    rw [Run.foldlM_execute_eq_program hnil, ← hrest] at hends
    rw [← hstart]
    exact (runStatements_endAs hends hledgers).mono fun _ _ hv _ => hv

/-- Where the first part fails, so does the whole. -/
theorem run_joined_of_program_eq_error (h₁ : source₁.Accepted) (h₂ : source₂.Accepted)
    (hclear : s.ledger.hadError = false) {e : RuntimeError} {m : Machine}
    (hprogram : Run.program fuel source₁.statements (s.afterReading source₁).machine =
      .error (.error e) m) (hmachine : s₁.machine.Alike m) :
    ∃ s', FailsWithin fuel (source₁ ++ '\n' :: source₂) s source₁.statements e s' ∧
      s₁.machine.Alike s'.machine := by
  obtain ⟨hjoined, hstatements⟩ := Source.accepted_joined h₁ h₂
  obtain ⟨m', hprogram', hm⟩ :=
    Run.exists_program_eq_error (s.alike_afterReading source₁ (source₁ ++ '\n' :: source₂)) hprogram
  obtain ⟨before, failing, after, mid, hsplit, hbefore, hfailing⟩ :=
    Run.program_eq_error_iff.1 hprogram'
  have hwhole := Run.program_append_of_eq_error hprogram'
    (Stmt.allMoved (· + (source₁.lineCount : Int)) source₂.statements)
  rw [← hstatements] at hwhole
  obtain ⟨s', hrun, hledger, hm'⟩ := exists_runStatements_of_eq_error hwhole
  rw [← run_eq_of_accepted hclear hjoined] at hrun
  rw [ledger_afterReading hjoined] at hledger
  refine ⟨s', ⟨hrun, hledger, ⟨_, hstatements.symm⟩, ?_⟩,
    hmachine.trans (hm.trans hm'.symm)⟩
  exact ⟨before, failing, after, mid, m', hsplit, hbefore, hfailing, hm'.output, hm'.chain⟩

/-- **Running a program in two parts.** Two programs with a line end between them are one program.
In a session without earlier errors, where running the first part alone reports nothing, the whole
ends as the second part does when it is run behind the first one: with the same output and bindings,
with the same answer unless the second part is empty, and with the same runtime error as many lines
further down as the first part has, if there is one. Where the first part alone ends in a runtime
error, the whole ends in it as well, with the same output and bindings, and executes nothing of the
second part. -/
theorem run_joined (h₁ : source₁.Accepted) (h₂ : source₂.Accepted)
    (hclear : s.ledger.hadError = false) (hrun : run fuel source₁ s = .ok v s₁) :
    Source.Accepted (source₁ ++ '\n' :: source₂) ∧
      ((s₁.ledger = s.ledger ∧
          EndAs (fun w w' => source₂.statements ≠ [] → w = w')
            (s.ledger.Aborts (· + (source₁.lineCount : Int))) (run fuel source₂ s₁)
            (run fuel (source₁ ++ '\n' :: source₂) s)) ∨
        ∃ e s', s₁.ledger = s.ledger.aborted e ∧ v = none ∧
          FailsWithin fuel (source₁ ++ '\n' :: source₂) s source₁.statements e s' ∧
          s₁.machine.Alike s'.machine) := by
  refine ⟨(Source.accepted_joined h₁ h₂).1, ?_⟩
  rw [run_eq_of_accepted hclear h₁] at hrun
  rcases exists_program_of_runStatements hrun with
    ⟨m, hprogram, hledger, hm⟩ | ⟨e, m, hprogram, hv, hledger, hm⟩
  · rw [ledger_afterReading h₁] at hledger
    exact .inl ⟨hledger, run_joined_of_program_eq_ok h₁ h₂ hclear hprogram hledger hm⟩
  · rw [ledger_afterReading h₁] at hledger
    obtain ⟨s', hfails, halike⟩ := run_joined_of_program_eq_error h₁ h₂ hclear hprogram hm
    exact .inr ⟨e, s', hledger, hv, hfails, halike⟩

/-- A declaration in front of a program that fails: the whole fails as the second part does behind
the first one. -/
theorem run_joined_of_declaration :
    let first : Source := "var a;\n".toList
    let second : Source := "print a;b;".toList
    first.Accepted ∧ second.Accepted ∧ ∃ v s₁, run 1 first (new 0) = .ok v s₁ ∧
      EndAs (fun w w' => second.statements ≠ [] → w = w')
        ((new 0).ledger.Aborts (· + (first.lineCount : Int))) (run 1 second s₁)
        (run 1 (first ++ '\n' :: second) (new 0)) := by
  intro first second
  have hfirst : first.Accepted := ⟨by decide +kernel, by decide +kernel⟩
  have hsecond : second.Accepted := ⟨by decide +kernel, by decide +kernel⟩
  refine ⟨hfirst, hsecond, ?_⟩
  -- the first part returns and reports nothing
  have hflag : (match run 1 first (new 0) with
      | .ok _ s₁ => s₁.ledger.hadRuntimeError
      | .error _ _ => true) = false := by decide +kernel
  cases hrun : run 1 first (new 0) with
  | ok v s₁ =>
    rw [hrun] at hflag
    obtain ⟨-, ⟨-, hends⟩ | ⟨e, s', haborted, -⟩⟩ := run_joined hfirst hsecond rfl hrun
    · exact ⟨v, s₁, rfl, hends⟩
    · simp only [haborted] at hflag
      cases hflag
  | error stop s₁ =>
    rw [hrun] at hflag
    cases hflag

end Session

end Lox
