import Lox.Proofs.Run.Unwinding
import Lox.Proofs.Session.Endings
import Lox.Proofs.Session.Entries
import Lox.Proofs.Session.Scopes
import Lox.Proofs.Tree.Printing

/-! # Lines that leave no trace on later ones

A line that is refused, or whose tokens or statements are only listed, leaves nothing behind that a
later line could see. A line that stops at a runtime error leaves what was printed and bound until
then, and later lines are run as if nothing had been wrong.

* **`Session.listTokens_eq`**, **`Session.exists_listStatements_eq`** — what listing leaves behind;
* **`Session.Entry.Idle`** — a line that is refused or only listed;
* **`Session.Entry.Idle.exists_eq_ok`** — such a line returns, and leaves the scopes as they are;
* **`Session.exists_raisesAt_of_hadRuntimeError`** — what a line leaves that stops at an error;
* **`Session.Reachable.lines_leave_no_trace`** — what later lines see of all this. -/

namespace Lox.Session

variable {fuel : Nat} {line : String} {s s' : Session}

/-! ## Listing -/

/-- Listing a line for each entry of a list. -/
theorem forIn_list_eq {α : Type} {entries : List α} {f : α → PUnit → Action (ForInStep PUnit)}
    {g : α → String}
    (hf : ∀ a ∈ entries, f a ⟨⟩ = list (g a) >>= fun _ => pure (.yield ⟨⟩)) (s : Session) :
    forIn entries ⟨⟩ f s =
      .ok ⟨⟩ { s with listing := s.listing ++ (entries.map g).toArray } := by
  induction entries generalizing s with
  | nil =>
    rw [List.forIn_nil]
    show EStateM.Result.ok PUnit.unit s = _
    simp
  | cons a rest ih =>
    have hrest := ih (fun b hb => hf b (List.mem_cons_of_mem _ hb))
      { s with listing := s.listing.push (g a) }
    rw [List.forIn_cons, hf a List.mem_cons_self]
    refine hrest.trans ?_
    simp

/-- **Listing tokens** reports the lexical errors, and leaves the machine as it is. -/
theorem listTokens_eq (source : Source) (s : Session) :
    listTokens source s = .ok ()
      { s with
        ledger := source.lexicalErrors.foldl (fun l e => l.lexical e) s.ledger
        listing := s.listing ++ (source.tokens.map Token.describe).toArray } := by
  unfold listTokens
  rw [bind_eq_of_eq_ok (readTokens_eq source s), bind_eq_ok_iff]
  exact ⟨⟨⟩, _, forIn_list_eq (g := Token.describe) (fun _ _ => rfl) _, rfl⟩

/-- **Listing statements** reports what is wrong with them, and leaves the machine as reading
does. -/
theorem exists_listStatements_eq (source : Source) (s : Session) :
    ∃ texts : List String, listStatements source s = .ok ()
      { s.afterReading source with listing := s.listing ++ texts.toArray } := by
  -- whatever is read can be printed
  have hprinted : ∀ st ∈ ((if (s.ledger.reported source).hadError then none
      else Grammar.statements? source.tokens).getD []), ∃ text, st.printed = .ok text := by
    intro st hst
    split at hst
    · cases hst
    · cases hfound : Grammar.statements? source.tokens with
      | none =>
        rw [hfound] at hst
        cases hst
      | some statements =>
        rw [hfound] at hst
        have hdrawn := Stmt.allDrawn_iff.1 (allDrawn_of_statements? hfound)
        exact ⟨_, Stmt.printed_eq (hdrawn st hst)⟩
  choose! text htext using hprinted
  unfold listStatements
  rw [bind_eq_of_eq_ok (readProgram_eq source s)]
  refine ⟨_, bind_eq_ok_iff.2 ⟨⟨⟩, _, forIn_list_eq (g := text) (fun st hst => ?_) _, rfl⟩⟩
  simp only [htext st hst]

/-! ## Idle lines -/

/-- A session that has forgotten what was reported before. -/
def cleared (s : Session) : Session := { s with ledger := s.ledger.reset }

/-- A line is handled as a program once the reports before it are forgotten. -/
theorem enterLine_eq (fuel : Nat) (mode : Mode) (line : String) (s : Session) :
    enterLine fuel mode line s = handle fuel mode (Source.ofText line) s.cleared := rfl

/-- A line with something wrong in it is refused: nothing is done but to report that. -/
theorem enterLine_eq_of_refused (h : ¬(Source.ofText line).Accepted) (fuel : Nat) (s : Session) :
    enterLine fuel .run line s = .ok () (s.cleared.afterReading (Source.ofText line)) := by
  have herror : (s.cleared.ledger.reported (Source.ofText line)).hadError = true := by
    rw [← Bool.not_eq_false, hadError_reported_eq_false_iff]
    exact fun hclean => h hclean.2
  rw [enterLine_eq]
  exact bind_eq_ok_iff.2 ⟨none, _, run_eq_of_hadError herror, rfl⟩

/-- **A line is idle** if its tokens or statements are listed, or if something is wrong with it, so
that it is not run. -/
def Entry.Idle (entry : Entry) : Prop :=
  entry.mode = .run → ¬(Source.ofText entry.line).Accepted

/-- **An idle line** returns, and leaves the scopes as they are. -/
theorem Entry.Idle.exists_eq_ok {entry : Entry} (h : entry.Idle) (fuel : Nat) (s : Session) :
    ∃ s', enterLine fuel entry.mode entry.line s = .ok () s' ∧ s'.Peers s := by
  obtain ⟨mode, line⟩ := entry
  cases mode with
  | run => exact ⟨_, enterLine_eq_of_refused (h rfl) fuel s, rfl, level_afterReading _ _⟩
  | tokens => exact ⟨_, listTokens_eq (Source.ofText line) s.cleared, rfl, rfl⟩
  | tree =>
    obtain ⟨texts, hlisted⟩ := exists_listStatements_eq (Source.ofText line) s.cleared
    exact ⟨_, hlisted, rfl, level_afterReading _ _⟩

/-- Idle lines all return, and leave the scopes as they are. -/
theorem peers_behind_idle {idle : List Entry} (h : ∀ entry ∈ idle, entry.Idle) (fuel : Nat)
    (s : Session) :
    (∀ r ∈ responses fuel idle s, r.stop = none) ∧ (behind fuel idle s).Peers s := by
  induction idle generalizing s with
  | nil => exact ⟨by simp [responses], .refl s⟩
  | cons entry idle ih =>
    obtain ⟨s', hres, hs'⟩ := (h entry List.mem_cons_self).exists_eq_ok fuel s
    have hnext : next fuel s entry = s' := by rw [next, hres]; rfl
    obtain ⟨hstops, hbehind⟩ := ih (fun e he => h e (List.mem_cons_of_mem _ he)) s'
    refine ⟨fun r hr => ?_, ?_⟩
    · rw [responses, hnext] at hr
      rcases List.mem_cons.1 hr with rfl | hr
      · show stop? (enterLine fuel entry.mode entry.line s) = none
        rw [hres]
        rfl
      · exact hstops r hr
    · rw [behind_cons, hnext]
      exact hbehind.trans hs'

/-! ## Lines that stop at a runtime error -/

/-- A line with nothing wrong in it is run, whatever was reported before. -/
theorem enterLine_eq_of_accepted (h : (Source.ofText line).Accepted) (fuel : Nat) (s : Session) :
    enterLine fuel .run line s = discard (runStatements fuel (Source.ofText line).statements)
      (s.cleared.afterReading (Source.ofText line)) := by
  have hrun : run fuel (Source.ofText line) s.cleared = runStatements fuel
      (Source.ofText line).statements (s.cleared.afterReading (Source.ofText line)) :=
    run_eq_of_accepted rfl h
  rw [discard_eq_bind]
  show EStateM.bind (run fuel (Source.ofText line)) _ s.cleared = EStateM.bind _ _ _
  unfold EStateM.bind
  rw [hrun]

/-- **A line that stops at a runtime error** has reported this error and nothing else. What was
printed and bound when the error was raised is kept, and the session is at its global scope. -/
theorem exists_raisesAt_of_hadRuntimeError (hs : Reachable s)
    (h : enterLine fuel .run line s = .ok () s') (hflag : s'.ledger.hadRuntimeError = true) :
    ∃ e moment, RaisesAt fuel (Source.ofText line) s.cleared e moment ∧
      s'.ledger.messages = #[e.render] ∧ s'.ledger.hadError = false ∧
      s'.machine.output = moment.output ∧ s'.machine.chain = .global moment.chain.globals := by
  have hglobal : s'.machine.chain.isGlobal = true := by
    have hleft := (hs.enterLine fuel .run line).isGlobal
    rwa [h] at hleft
  by_cases haccepted : (Source.ofText line).Accepted
  · rw [enterLine_eq_of_accepted haccepted] at h
    obtain ⟨v, hrun, -⟩ := map_eq_ok_iff.1 h
    have hledger : (s.cleared.afterReading (Source.ofText line)).ledger = s.ledger.reset :=
      ledger_afterReading haccepted
    rcases exists_program_of_runStatements hrun with
      ⟨m, -, hsame, -⟩ | ⟨e, m, hprogram, -, haborted, halike⟩
    · rw [hsame, hledger] at hflag
      cases hflag
    · -- the error was raised in one of the statements, and has unwound from there
      obtain ⟨before, st, after, mid, moment, hstatements, hbefore, hraises, hunwound⟩ :=
        Run.exists_unwound_of_program (Source.allDrawn_statements haccepted.2) hprogram
      have hchain : m.chain.isGlobal = true := halike.chain ▸ hglobal
      refine ⟨e, moment, ⟨before, st, after, mid, hstatements, hbefore, hraises⟩, ?_, ?_, ?_, ?_⟩
      · rw [haborted, hledger]
        rfl
      · rw [haborted, hledger]
        rfl
      · exact halike.output.trans hunwound.output
      · exact halike.chain.trans (hunwound.chain_eq hchain)
  · -- a refused line reports no runtime error
    rw [enterLine_eq_of_refused haccepted] at h
    cases h
    have hquiet : (s.cleared.ledger.reported (Source.ofText line)).hadRuntimeError = false := by
      rw [Ledger.reported_eq]
      rfl
    cases hquiet.symm.trans hflag

/-! ## Later lines -/

/-- A session in which nothing has happened, but for its scopes. -/
def restarted (s : Session) : Session :=
  { machine := { chain := s.machine.chain, trace := { level := s.machine.trace.level } } }

/-- **Lines leave no trace on later ones** but for what they bind. Idle lines return, and whatever
lines are handled behind them, they show the same as without the idle ones, and leave the same
scopes. A line that stops at a runtime error leaves the session at its global scope, with everything
that was printed and bound when the error was raised; lines behind it show what they do in a session
in which nothing happened but for the bindings, and those with nothing wrong in them are run. -/
theorem Reachable.lines_leave_no_trace (h : Reachable s) (fuel : Nat) :
    (∀ before idle after : List Entry, (∀ entry ∈ idle, entry.Idle) →
      (∀ r ∈ responses fuel idle (behind fuel before s), r.stop = none) ∧
        responses fuel after (behind fuel (before ++ idle) s) =
          responses fuel after (behind fuel before s) ∧
        (behind fuel (before ++ idle ++ after) s).machine.chain =
          (behind fuel (before ++ after) s).machine.chain) ∧
    ∀ (line : String) (s' : Session), Session.enterLine fuel .run line s = .ok () s' →
      s'.ledger.hadRuntimeError = true →
        (∃ e moment, RaisesAt fuel (Source.ofText line) s.cleared e moment ∧
          s'.ledger.messages = #[e.render] ∧ s'.ledger.hadError = false ∧
          s'.machine.output = moment.output ∧ s'.machine.chain = .global moment.chain.globals) ∧
        (∀ later, responses fuel later s' = responses fuel later s'.restarted) ∧
        ∀ later line', (Source.ofText line').Accepted →
          Session.enterLine fuel .run line' (behind fuel later s') =
            discard (runStatements fuel (Source.ofText line').statements)
              ((behind fuel later s').cleared.afterReading (Source.ofText line')) := by
  refine ⟨fun before idle after hidle => ?_, fun line s' hres hflag => ⟨?_, fun later => ?_, ?_⟩⟩
  · obtain ⟨hstops, hpeers⟩ := peers_behind_idle hidle fuel (behind fuel before s)
    rw [← behind_append] at hpeers
    obtain ⟨hresponses, hbehind⟩ := hpeers.responses_eq fuel after
    rw [← behind_append, ← behind_append] at hbehind
    exact ⟨hstops, hresponses, hbehind.chain⟩
  · exact exists_raisesAt_of_hadRuntimeError h hres hflag
  · have hpeers : s'.Peers s'.restarted := ⟨rfl, rfl⟩
    exact (hpeers.responses_eq fuel later).1
  · exact fun later line' haccepted => enterLine_eq_of_accepted haccepted fuel _

/-- Behind a line that breaks off in the middle a fresh session prints what it prints without that
line; and a line with an unknown name leaves it at its global scope. -/
theorem lines_leave_no_trace_of_fresh :
    Reachable (new 0) ∧ Entry.Idle ⟨.run, "var"⟩ ∧
      responses 1 [⟨.run, "print nil;"⟩] (behind 1 [⟨.run, "var"⟩] (new 0)) =
        responses 1 [⟨.run, "print nil;"⟩] (new 0) ∧
      ∃ s', enterLine 1 .run "print a;" (new 0) = .ok () s' ∧ s'.ledger.hadRuntimeError = true ∧
        s'.machine.chain.isGlobal = true := by
  have hfresh : Reachable (new 0) := .fresh rfl
  obtain ⟨hidle, herror⟩ := hfresh.lines_leave_no_trace 1
  have hrefused : Entry.Idle ⟨.run, "var"⟩ := by
    rintro - ⟨-, hnone⟩
    have hlength : (Source.ofText "var").syntaxErrors.length = 1 := by decide +kernel
    rw [hnone] at hlength
    cases hlength
  refine ⟨hfresh, hrefused, ?_, ?_⟩
  · exact (hidle [] [⟨.run, "var"⟩] [⟨.run, "print nil;"⟩]
      fun entry hentry => List.mem_singleton.1 hentry ▸ hrefused).2.1
  · have hflag : (match enterLine 1 .run "print a;" (new 0) with
      | .ok _ s' => s'.ledger.hadRuntimeError
      | .error _ _ => false) = true := by decide +kernel
    cases hres : enterLine 1 .run "print a;" (new 0) with
    | ok u s' =>
      rw [hres] at hflag
      obtain ⟨⟨e, moment, -, -, -, -, hchain⟩, -⟩ := herror "print a;" s' hres hflag
      exact ⟨s', rfl, hflag, by rw [hchain]; rfl⟩
    | error stop s' =>
      rw [hres] at hflag
      cases hflag

end Lox.Session
