import Mathlib.Logic.Function.Iterate
import Lox.Proofs.Run.Raises
import Lox.Proofs.Run.Rounds

/-! # What an error leaves behind

A runtime error closes the scopes that were opened inside the statement that it stops, and does
nothing else on its way out: everything that was printed and bound when it was raised is kept.

* **`Machine.Unwound`** — a machine behind an error that was raised at a moment;
* **`EvalRaises.evaluate_eq`** — an expression stops at the very moment its error is raised;
* **`Run.StopsAt`**, **`ExecRaises.stopsAt`** — a statement leaves such a machine behind the error
  that it raises, unless rounds are used up before;
* **`Run.exists_unwound_of_program`** — and so does a program. -/

namespace Lox

/-! ## Closed scopes -/

/-- Closing a scope keeps the global one. -/
theorem Chain.globals_leave (c : Chain) : c.leave.globals = c.globals := by
  cases c with
  | global b => rfl
  | nested b c => rfl

/-- Closing scopes keeps the global one. -/
theorem Chain.globals_iterate_leave (n : Nat) (c : Chain) :
    (Chain.leave^[n] c).globals = c.globals := by
  induction n with
  | zero => rfl
  | succ n ih => rw [Function.iterate_succ_apply', globals_leave, ih]

/-- **A machine behind an error that was raised at a moment**: what was printed by then is kept, and
the scopes are those of the moment, of which the inner ones are closed. -/
structure Machine.Unwound (moment m : Machine) : Prop where
  output : m.output = moment.output
  chain : ∃ n, m.chain = Chain.leave^[n] moment.chain

namespace Machine.Unwound

variable {moment m m' : Machine}

theorem refl (m : Machine) : Unwound m m := ⟨rfl, 0, rfl⟩

/-- One more scope is closed. -/
theorem closed (h : Unwound moment m) (depth : Nat) : Unwound moment (Run.closed depth m) := by
  obtain ⟨n, hn⟩ := h.chain
  refine ⟨h.output, n + 1, ?_⟩
  rw [Function.iterate_succ_apply', ← hn]
  rfl

/-- Once all inner scopes are closed, the global one is as it was at the moment. -/
theorem chain_eq (h : Unwound moment m) (hglobal : m.chain.isGlobal = true) :
    m.chain = .global moment.chain.globals := by
  obtain ⟨n, hn⟩ := h.chain
  rw [← Chain.globals_iterate_leave n, ← hn]
  cases hchain : m.chain with
  | global b => rfl
  | nested b c =>
    rw [hchain] at hglobal
    cases hglobal

end Machine.Unwound

namespace Run

variable {α β : Type} {e : RuntimeError} {moment m m' : Machine} {fuel : Nat}

/-! ## Expressions -/

/-- **An expression stops at the very moment its error is raised.** -/
theorem EvalRaises.evaluate_eq {x : Expr} (h : EvalRaises e moment x m) :
    evaluate x m = .error (.error e) moment := by
  induction h with
  | grouping h ih => exact bind_eq_error_iff.2 (.inl ih)
  | operand h ih => exact bind_eq_error_iff.2 (.inl ih)
  | unary h he =>
    rw [evaluate, bind_eq_of_eq_ok h]
    exact bind_eq_error_iff.2 (.inl he)
  | left h ih => exact bind_eq_error_iff.2 (.inl ih)
  | right hleft h ih =>
    rw [evaluate, bind_eq_of_eq_ok hleft]
    exact bind_eq_error_iff.2 (.inl ih)
  | binary hleft hright he =>
    rw [evaluate, bind_eq_of_eq_ok hleft, bind_eq_of_eq_ok hright]
    exact bind_eq_error_iff.2 (.inl he)
  | logicalLeft h ih => exact bind_eq_error_iff.2 (.inl ih)
  | @logicalRight _ operator _ _ v _ hleft hopen h ih =>
    rw [evaluate, bind_eq_of_eq_ok hleft]
    change (if decides operator v = true then pure v >>= noted .logical
      else evaluate _ >>= noted .logical) _ = _
    rw [if_neg (by simp [hopen])]
    exact bind_eq_error_iff.2 (.inl ih)
  | reference he => exact bind_eq_error_iff.2 (.inl he)
  | assigned h ih => exact bind_eq_error_iff.2 (.inl ih)
  | assign h he =>
    rw [evaluate, bind_eq_of_eq_ok h]
    exact bind_eq_error_iff.2 (.inl he)

/-! ## Actions that stop -/

/-- **A run stopped at an error that was raised at a moment**, or the rounds granted to its loops
were used up before. -/
def StopsAt (e : RuntimeError) (moment : Machine) : EStateM.Result Stop Machine α → Prop
  | .error (.error e') m => e' = e ∧ moment.Unwound m
  | .error .exhausted _ => True
  | .error (.fault _) _ | .ok _ _ => False

/-- An action that stops at the moment. -/
theorem stopsAt_of_eq {x : Run α} (h : x m = .error (.error e) moment) :
    StopsAt e moment (x m) := by
  rw [h]
  exact ⟨rfl, .refl moment⟩

/-- Where an action stops does not depend on what it would have answered. -/
theorem StopsAt.of_error {stop : Stop}
    (h : StopsAt e moment (.error stop m : EStateM.Result Stop Machine α)) :
    StopsAt e moment (.error stop m : EStateM.Result Stop Machine β) := by
  cases stop with
  | error e' => exact h
  | fault f => exact h.elim
  | exhausted => trivial

/-- Nothing follows an action that stops. -/
theorem StopsAt.bind {x : Run α} (h : StopsAt e moment (x m)) (k : α → Run β) :
    StopsAt e moment ((x >>= k) m) := by
  cases hres : x m with
  | ok a mid =>
    rw [hres] at h
    exact h.elim
  | error stop mid =>
    rw [hres] at h
    rw [bind_eq_error_iff.2 (.inl hres)]
    exact h.of_error

/-- No answer is worked on. -/
theorem StopsAt.map {x : Run α} (h : StopsAt e moment (x m)) (f : α → β) :
    StopsAt e moment ((f <$> x) m) := by
  rw [map_eq_pure_bind]
  exact h.bind _

/-- A scope of its own is closed while the error unwinds. -/
theorem StopsAt.inScope {body : Run α} (h : StopsAt e moment (body (entered m))) :
    StopsAt e moment (inScope body m) := by
  rw [inScope_eq]
  cases hres : body (entered m) with
  | ok a mid =>
    rw [hres] at h
    exact h.elim
  | error stop mid =>
    rw [hres] at h
    cases stop with
    | error e' => exact ⟨h.1, h.2.closed _⟩
    | fault f => exact h.elim
    | exhausted => trivial

/-- With fewer rounds an action stops there as well, if they are not used up before. -/
theorem StopsAt.of_within {x y : Run α} (h : StopsAt e moment (y m)) (hxy : Within x y) :
    StopsAt e moment (x m) := by
  rcases hxy m with ⟨m', hstop⟩ | hsame
  · rw [hstop]
    trivial
  · rw [hsame]
    exact h

/-! ## Loops -/

/-- Counting on from one more round changes nothing but the count. -/
theorem repeatWhile_count_succ (test : Run Bool) (body : Run Unit) (rounds count : Nat) :
    repeatWhile test body rounds (count + 1) =
      (· + 1) <$> repeatWhile test body rounds count := by
  induction rounds generalizing count with
  | zero => rfl
  | succ rounds ih =>
    rw [repeatWhile, repeatWhile, map_bind]
    congr 1
    funext goesOn
    cases goesOn with
    | true => simp only [if_true, ih, map_bind]
    | false => rfl

section

variable {test : Run Bool} {body : Run Unit} {mid mid' : Machine}

/-- Rounds stop where a test does. -/
theorem stopsAt_repeatWhile_test (h : StopsAt e moment (test m)) (rounds count : Nat) :
    StopsAt e moment (repeatWhile test body rounds count m) := by
  cases rounds with
  | zero => trivial
  | succ rounds => exact h.bind _

/-- Rounds stop where a body does. -/
theorem stopsAt_repeatWhile_body (htest : test m = .ok true mid) (h : StopsAt e moment (body mid))
    (rounds count : Nat) : StopsAt e moment (repeatWhile test body rounds count m) := by
  cases rounds with
  | zero => trivial
  | succ rounds =>
    rw [repeatWhile, bind_eq_of_eq_ok htest]
    exact h.bind _

/-- Rounds stop where the ones behind the first one do. -/
theorem stopsAt_repeatWhile_round (htest : test m = .ok true mid) (hbody : body mid = .ok () mid')
    {rounds count : Nat} (h : StopsAt e moment (repeatWhile test body rounds count mid')) :
    StopsAt e moment (repeatWhile test body rounds count m) := by
  cases rounds with
  | zero => trivial
  | succ rounds =>
    -- one round fewer is left behind the first one
    have hwithin : Within (repeatWhile test body rounds count)
        (repeatWhile test body (rounds + 1) count) :=
      (Within.refl body).repeatWhile (Nat.le_succ rounds) count
    rw [repeatWhile, bind_eq_of_eq_ok htest, if_pos rfl, bind_eq_of_eq_ok hbody,
      repeatWhile_count_succ]
    exact (h.of_within hwithin).map _

end

/-- A loop stops where its rounds do, as the entry behind them can always be added. -/
theorem stopsAt_loop_iff {condition : Expr} {body : Stmt} :
    StopsAt e moment (execute fuel (.loop condition body) m) ↔
      StopsAt e moment (repeatWhile (holds condition) (discard (execute fuel body)) fuel 0 m) := by
  rw [execute]
  refine ⟨fun h => ?_, fun h => h.bind _⟩
  cases hres : repeatWhile (holds condition) (discard (execute fuel body)) fuel 0 m with
  | ok rounds mid =>
    rw [bind_eq_of_eq_ok hres] at h
    exact h.elim
  | error stop mid =>
    rw [bind_eq_error_iff.2 (.inl hres)] at h
    exact h.of_error

/-! ## Statements -/

/-- A condition that raises an error. -/
theorem EvalRaises.stopsAt_holds {condition : Expr} (h : EvalRaises e moment condition m) :
    StopsAt e moment (holds condition m) :=
  (stopsAt_of_eq h.evaluate_eq).map _

/-- The condition of a branch that raises an error. -/
theorem EvalRaises.stopsAt_branchTaken {condition : Expr} (h : EvalRaises e moment condition m) :
    StopsAt e moment (branchTaken condition m) :=
  h.stopsAt_holds.bind _

/-- **A statement that raises an error stops at it**, with everything kept that was printed and
bound at the moment. The induction is on how the error is raised, from the statement in. -/
theorem ExecRaises.stopsAt {s : Stmt} (h : ExecRaises fuel e moment s m) :
    StopsAt e moment (execute fuel s m) := by
  induction h with
  | expression h => exact stopsAt_of_eq h.evaluate_eq
  | print h => exact (stopsAt_of_eq h.evaluate_eq).bind _
  | declaration h => exact (stopsAt_of_eq h.evaluate_eq).bind _
  | @block before s after m mid hbefore h ih =>
    have hbody : StopsAt e moment (executeAll fuel (before ++ s :: after) (entered m)) := by
      rw [executeAll_append, bind_eq_of_eq_ok hbefore]
      exact ih.bind _
    exact hbody.inScope.bind _
  | @condition _ _ elseBranch _ h =>
    cases elseBranch with
    | none => exact h.stopsAt_branchTaken.bind _
    | some elseBranch => exact h.stopsAt_branchTaken.bind _
  | @thenBranch _ _ elseBranch _ _ htaken h ih =>
    cases elseBranch with
    | none =>
      rw [execute, bind_eq_of_eq_ok htaken]
      exact ih.bind _
    | some elseBranch =>
      rw [execute, bind_eq_of_eq_ok htaken]
      exact ih.bind _
  | elseBranch htaken h ih =>
    rw [execute, bind_eq_of_eq_ok htaken]
    exact ih.bind _
  | test h => exact stopsAt_loop_iff.2 (stopsAt_repeatWhile_test h.stopsAt_holds _ _)
  | body hholds h ih => exact stopsAt_loop_iff.2 (stopsAt_repeatWhile_body hholds (ih.map _) _ _)
  | @round _ body _ mid _ mid' hholds hbody h ih =>
    have hround : discard (execute fuel body) mid = .ok () mid' :=
      map_eq_ok_iff.2 ⟨_, hbody, rfl⟩
    exact stopsAt_loop_iff.2 (stopsAt_repeatWhile_round hholds hround (stopsAt_loop_iff.1 ih))

/-- **A program that stops at an error** raised it in one of its statements, behind the ones before
it, and keeps what was printed and bound at that moment. -/
theorem exists_unwound_of_program {ts : List Token} {statements : List Stmt}
    (hdrawn : Stmt.AllDrawn ts statements) (h : program fuel statements m = .error (.error e) m') :
    ∃ before st after mid moment, statements = before ++ st :: after ∧
      executeAll fuel before m = .ok () mid ∧ ExecRaises fuel e moment st mid ∧
      moment.Unwound m' := by
  obtain ⟨before, st, after, mid, rfl, hbefore, hst⟩ := program_eq_error_iff.1 h
  have hstDrawn : st.Drawn ts := Stmt.allDrawn_iff.1 hdrawn st (by simp)
  obtain ⟨moment, hraises⟩ := exists_execRaises st hstDrawn _ _ hst
  have hstops := hraises.stopsAt
  rw [hst] at hstops
  exact ⟨before, st, after, mid, moment, rfl, hbefore, hraises, hstops.2⟩

end Run

end Lox
