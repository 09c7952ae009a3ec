import Lox.Proofs.Run.Programs
import Lox.Proofs.Run.Raises
import Lox.Proofs.Session.Reading

/-! # No program makes a session fail

A session that started with empty scopes binds every name to a value, whatever programs and lines it
was given. Running a source in it scans and reads without failing, and then runs to the end, stops
at a runtime error that is reported, or uses up the rounds granted to its loops.

* **`Session.Reachable`** — the sessions that programs and lines lead to;
* **`Session.Reachable.chain_induction`** — what is true of their scopes if programs keep it so;
* **`Session.Reachable.valued`** — all their names are bound to values;
* **`Source.allDrawn_statements`** — the statements of a source are drawn from its tokens;
* **`Session.Reachable.run_ends`** — hence no run fails, and what a runtime error names. -/

namespace Lox

/-! ## The statements of a source -/

/-- The statements that the tokens of a source are read as are drawn from them. -/
theorem Source.allDrawn_statements {source : Source} (h : source.syntaxErrors = []) :
    Stmt.AllDrawn source.body source.statements := by
  obtain ⟨p, htokens, hdesugar, -⟩ := exists_program_of_syntaxErrors_eq_nil h
  -- scanning gives every number and string its literal
  have hliterals : Surface.HaveLiterals source.body := by
    intro t ht hkind
    have hscanned := scanned_of_mem_body ht
    rcases hkind with hkind | hkind
    · obtain ⟨n, hn⟩ := hscanned.number hkind
      rw [hn]
      rfl
    · obtain ⟨text, htext⟩ := hscanned.string hkind
      rw [htext]
      rfl
  rw [← hdesugar]
  exact Surface.drawn_desugarAll hliterals _ (htokens ▸ List.Subset.refl _)

namespace Session

/-! ## Reachable sessions -/

/-- What an action leaves behind, however it ended. -/
def left {α : Type} : EStateM.Result Stop Session α → Session
  | .ok _ s => s
  | .error _ s => s

/-- **The sessions that programs and lines lead to** from scopes that bind nothing. A program or a
line may also have been broken off. -/
inductive Reachable : Session → Prop
  | fresh {s : Session} (h : s.machine.chain = .empty) : Reachable s
  | run {s : Session} (h : Reachable s) (fuel : Nat) (source : Source) :
      Reachable (left (Session.run fuel source s))
  | enterLine {s : Session} (h : Reachable s) (fuel : Nat) (mode : Mode) (line : String) :
      Reachable (left (Session.enterLine fuel mode line s))

/-- An action leaves the scopes as they were. -/
def KeepsChain {α : Type} (action : Action α) : Prop :=
  ∀ s, (left (action s)).machine.chain = s.machine.chain

section KeepsChain

variable {α β : Type}

/-- Two actions that leave the scopes do so one after the other. -/
theorem KeepsChain.bind {x : Action α} {f : α → Action β} (hx : KeepsChain x)
    (hf : ∀ a, KeepsChain (f a)) : KeepsChain (x >>= f) := by
  intro s
  have hxs := hx s
  show (left (EStateM.bind x f s)).machine.chain = _
  unfold EStateM.bind
  cases hres : x s with
  | ok a mid =>
    rw [hres] at hxs
    exact (hf a mid).trans hxs
  | error stop mid =>
    rw [hres] at hxs
    exact hxs

/-- What is done for each entry of a list leaves the scopes if it does so for one. -/
theorem KeepsChain.forIn {entries : List α} {f : α → PUnit → Action (ForInStep PUnit)}
    (hf : ∀ a, KeepsChain (f a ⟨⟩)) : KeepsChain (forIn entries ⟨⟩ f) := by
  induction entries with
  | nil => exact fun _ => rfl
  | cons a rest ih =>
    rw [List.forIn_cons]
    refine (hf a).bind fun r => ?_
    -- whether the loop is left or goes on, the scopes stay
    cases r with
    | done _ => exact fun _ => rfl
    | yield _ => exact ih

/-- Listing tokens leaves the scopes. -/
theorem keepsChain_listTokens (source : Source) : KeepsChain (listTokens source) :=
  KeepsChain.bind (fun _ => rfl) fun _ =>
    (KeepsChain.forIn fun _ _ => rfl).bind fun _ _ => rfl

/-- Reading a program leaves the scopes. -/
theorem keepsChain_readProgram (source : Source) : KeepsChain (readProgram source) := by
  intro s
  rw [readProgram_eq]
  rfl

/-- Listing statements leaves the scopes. -/
theorem keepsChain_listStatements (source : Source) : KeepsChain (listStatements source) := by
  refine (keepsChain_readProgram source).bind fun statements =>
    KeepsChain.bind (KeepsChain.forIn fun s => ?_) fun _ _ => rfl
  split
  · exact fun _ => rfl
  · exact fun _ => rfl

end KeepsChain

/-! ## How runs end -/

variable {fuel : Nat} {source : Source} {s : Session}

/-- Running statements drawn from tokens stops at no fault and leaves every name bound to a value:
it ends, or it stops at a runtime error, which is reported, or its rounds are used up. -/
theorem runStatements_ends (fuel : Nat) {ts : List Token} {statements : List Stmt}
    (hdrawn : Stmt.AllDrawn ts statements) (hs : s.machine.chain.Valued) :
    (left (runStatements fuel statements s)).machine.chain.Valued ∧
      ((∃ s', runStatements fuel statements s = .error .exhausted s') ∨
        (∃ v s', runStatements fuel statements s = .ok v s' ∧ s'.ledger = s.ledger) ∨
        ∃ e s' m', Run.program fuel statements s.machine = .error (.error e) m' ∧
          runStatements fuel statements s = .ok none s' ∧ s'.ledger = s.ledger.aborted e) := by
  -- where every name is bound to a value, no fault stops the program
  have hsafe := Run.safe_program fuel hdrawn s.machine hs
  unfold runStatements
  cases hprogram : Run.program fuel statements s.machine with
  | ok v m =>
    rw [hprogram] at hsafe
    exact ⟨hsafe.2, .inr (.inl ⟨_, _, rfl, rfl⟩)⟩
  | error stop m =>
    rw [hprogram] at hsafe
    cases stop with
    | error e => exact ⟨hsafe.2, .inr (.inr ⟨e, _, m, rfl, rfl, rfl⟩)⟩
    | fault f => exact absurd rfl (hsafe.1 f)
    | exhausted => exact ⟨hsafe.2, .inl ⟨_, rfl⟩⟩

/-- Where every name is bound to a value, running a source returns or uses up its rounds. -/
theorem run_returns_or_exhausts (hs : s.machine.chain.Valued) :
    (∃ s', run fuel source s = .error .exhausted s') ∨
      ∃ result s', run fuel source s = .ok result s' := by
  cases herror : (s.ledger.reported source).hadError with
  | true => exact .inr ⟨_, _, run_eq_of_hadError herror⟩
  | false =>
    obtain ⟨hclear, haccepted⟩ := hadError_reported_eq_false_iff.1 herror
    rw [run_eq_of_accepted hclear haccepted]
    obtain ⟨-, hexhausted | ⟨v, s', hrun, -⟩ | ⟨e, s', m', -, hrun, -⟩⟩ :=
      runStatements_ends fuel (s := s.afterReading source)
        (Source.allDrawn_statements haccepted.2) hs
    · exact .inl hexhausted
    · exact .inr ⟨v, s', hrun⟩
    · exact .inr ⟨none, s', hrun⟩

/-! ## What reachable sessions have in common -/

variable {P : Chain → Prop}

/-- What is true of the scopes of a session is true behind the run of a source, if running its
statements keeps it so. -/
theorem chain_run (hkeeps : source.syntaxErrors = [] → ∀ s' : Session, P s'.machine.chain →
      P (left (runStatements fuel source.statements s')).machine.chain)
    (hs : P s.machine.chain) : P (left (run fuel source s)).machine.chain := by
  cases herror : (s.ledger.reported source).hadError with
  | true =>
    rw [run_eq_of_hadError herror]
    exact hs
  | false =>
    obtain ⟨hclear, haccepted⟩ := hadError_reported_eq_false_iff.1 herror
    rw [run_eq_of_accepted hclear haccepted]
    exact hkeeps haccepted.2 (s.afterReading source) hs

/-- What is true of the scopes of a session is true behind a line, if running its statements keeps
it so. -/
theorem chain_enterLine {mode : Mode} {line : String}
    (hkeeps : (Source.ofText line).syntaxErrors = [] → ∀ s' : Session, P s'.machine.chain →
      P (left (runStatements fuel (Source.ofText line).statements s')).machine.chain)
    (hs : P s.machine.chain) : P (left (enterLine fuel mode line s)).machine.chain := by
  let s₀ : Session := { s with ledger := s.ledger.reset }
  show P (left (handle fuel mode (Source.ofText line) s₀)).machine.chain
  -- listing tokens or statements leaves the scopes; only running a line may change them
  cases mode with
  | run =>
    have hrun : P (left (run fuel (Source.ofText line) s₀)).machine.chain := chain_run hkeeps hs
    show P (left (EStateM.bind (run fuel (Source.ofText line)) _ s₀)).machine.chain
    unfold EStateM.bind
    cases hres : run fuel (Source.ofText line) s₀ with
    | ok v s' =>
      rw [hres] at hrun
      exact hrun
    | error stop s' =>
      rw [hres] at hrun
      exact hrun
  | tokens =>
    have hkeeps := keepsChain_listTokens (Source.ofText line) s₀
    show P (left (listTokens (Source.ofText line) s₀)).machine.chain
    rw [hkeeps]
    exact hs
  | tree =>
    have hkeeps := keepsChain_listStatements (Source.ofText line) s₀
    show P (left (listStatements (Source.ofText line) s₀)).machine.chain
    rw [hkeeps]
    exact hs

/-- **What is true of empty scopes, and kept by running the statements of a source**, is true of the
scopes of every reachable session. -/
theorem Reachable.chain_induction (h : Reachable s) (hempty : P .empty)
    (hkeeps : ∀ (fuel : Nat) (source : Source), source.syntaxErrors = [] → ∀ s' : Session,
      P s'.machine.chain → P (left (runStatements fuel source.statements s')).machine.chain) :
    P s.machine.chain := by
  induction h with
  | fresh h => exact h ▸ hempty
  | run h fuel source ih => exact chain_run (hkeeps fuel source) ih
  | enterLine h fuel mode line ih => exact chain_enterLine (hkeeps fuel (Source.ofText line)) ih

/-- **A reachable session binds every name to a value.** -/
theorem Reachable.valued (h : Reachable s) : s.machine.chain.Valued :=
  h.chain_induction (Chain.valued_global.2 Bindings.valued_empty) fun fuel _ haccepted _ hs =>
    (runStatements_ends fuel (Source.allDrawn_statements haccepted) hs).1

/-! ## Runs of reachable sessions -/

/-- The run of a source stops at a runtime error that is raised at a moment: in one of its
statements, behind the ones before it. -/
def RaisesAt (fuel : Nat) (source : Source) (s : Session) (e : RuntimeError) (moment : Machine) :
    Prop :=
  ∃ before st after mid, source.statements = before ++ st :: after ∧
    Run.executeAll fuel before (s.afterReading source).machine = .ok () mid ∧
    Run.ExecRaises fuel e moment st mid

/-- **No run of a reachable session fails.** Scanning goes through, and the run uses up the rounds
granted to its loops, or it returns. Then it has reported what is wrong with the source and nothing
else, or a runtime error alone: one that was raised at some moment of the run, by a token of the
source of a kind that the error requires, and for an unknown name when no scope in force bound that
name. -/
theorem Reachable.run_ends (h : Reachable s) (fuel : Nat) (source : Source) :
    Source.ScansThrough source ∧
      ((∃ s', Session.run fuel source s = .error .exhausted s') ∨
        ∃ r s', Session.run fuel source s = .ok r s' ∧
          (s'.ledger = s.ledger.reported source ∨
            ∃ e moment, s'.ledger = s.ledger.aborted e ∧ RaisesAt fuel source s e moment ∧
              e.Fits source.body moment)) := by
  refine ⟨Source.scansThrough source, ?_⟩
  cases herror : (s.ledger.reported source).hadError with
  | true => exact .inr ⟨none, _, run_eq_of_hadError herror, .inl rfl⟩
  | false =>
    obtain ⟨hclear, haccepted⟩ := hadError_reported_eq_false_iff.1 herror
    have hdrawn := Source.allDrawn_statements haccepted.2
    have hledger : (s.afterReading source).ledger = s.ledger := ledger_afterReading haccepted
    obtain ⟨-, hends⟩ := runStatements_ends fuel (s := s.afterReading source) hdrawn h.valued
    rw [run_eq_of_accepted hclear haccepted]
    rcases hends with hexhausted | ⟨v, s', hrun, hsame⟩ | ⟨e, s', m', hprogram, hrun, haborted⟩
    · exact .inl hexhausted
    · exact .inr ⟨v, s', hrun, .inl hsame⟩
    · -- the error stopped one of the statements, so it was raised inside that one
      obtain ⟨before, st, after, mid, hstatements, hbefore, hst⟩ :=
        Run.program_eq_error_iff.1 hprogram
      have hstDrawn : st.Drawn source.body :=
        Stmt.allDrawn_iff.1 hdrawn st (by rw [hstatements]; simp)
      obtain ⟨moment, hraises⟩ := Run.exists_execRaises st hstDrawn _ _ hst
      refine .inr ⟨none, s', hrun, .inr ⟨e, moment, by rw [haborted, hledger], ?_, ?_⟩⟩
      · exact ⟨before, st, after, mid, hstatements, hbefore, hraises⟩
      · exact hraises.fits hstDrawn

/-- A name that nothing binds, printed in a fresh session: the run returns, and what it reports was
raised there. -/
theorem run_ends_of_unbound_name :
    Reachable (new 0) ∧ ∃ e moment, RaisesAt 1 "print a;".toList (new 0) e moment ∧
      e.Fits (Source.body "print a;".toList) moment := by
  have hfresh : Reachable (new 0) := .fresh rfl
  have hflag : (match Session.run 1 "print a;".toList (new 0) with
      | .ok _ s' => s'.ledger.hadRuntimeError
      | .error _ _ => false) = true := by decide +kernel
  refine ⟨hfresh, ?_⟩
  obtain ⟨-, ⟨s', hrun⟩ | ⟨r, s', hrun, hledger⟩⟩ := hfresh.run_ends 1 "print a;".toList
  · rw [hrun] at hflag
    cases hflag
  · rw [hrun] at hflag
    rcases hledger with hreported | ⟨e, moment, -, hraises, hfits⟩
    · simp only [hreported, Ledger.reported_eq] at hflag
      cases hflag
    · exact ⟨e, moment, hraises, hfits⟩

end Session

end Lox
