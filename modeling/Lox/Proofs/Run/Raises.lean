import Lox.Proofs.Run.Safety
import Lox.Proofs.Scope.Writes

/-! # Where a runtime error is raised

A run that stops at a runtime error was, at some moment, at the operation that raised it. The
machine at that moment still has the scopes that are closed while the error unwinds.

* **`EvalRaises`**, **`ExecRaises`** — evaluating an expression, or executing a statement, raises an
  error at a moment;
* **`exists_evalRaises`**, **`exists_execRaises`** — whatever stops at a runtime error raises it at
  some moment;
* **`RuntimeError.Fits`** — the error names a token of the program, of a kind that its cause
  requires, and an unknown name is bound in none of the scopes of that moment;
* **`EvalRaises.fits`**, **`ExecRaises.fits`** — whatever a tree drawn from tokens raises is so. -/

namespace Lox

/-- An error that a program over the given tokens can raise at a moment: its token is one of them,
of a kind that the cause requires, and an unknown name is not bound at that moment. -/
structure RuntimeError.Fits (e : RuntimeError) (ts : List Token) (moment : Machine) : Prop where
  mem : e.token ∈ ts
  kind_mem : e.token.kind ∈ e.kind.places
  unbound : e.kind = .undefinedVariable → moment.chain.get? e.token.lexeme = none

namespace Run

/-! ## Operations -/

section Operations

variable {m m' : Machine} {e : RuntimeError} {operator name : Token} {v w : Option Value}

/-- An operator that aborts raises an error of its own. -/
theorem fits_of_raisedBy {α : Type} {ts : List Token} {kind : RuntimeErrorKind}
    (hmem : operator ∈ ts) (hraised : RaisedBy operator kind)
    (h : (abort operator kind : Run α) m = .error (.error e) m') : e.Fits ts m ∧ m' = m := by
  cases h
  exact ⟨⟨hmem, hraised.1, fun heq => absurd heq hraised.2⟩, rfl⟩

/-- A sign stops at a runtime error of its own kind. -/
theorem fits_of_applyUnary {ts : List Token} (hmem : operator ∈ ts)
    (hkind : operator.kind ∈ Surface.signKinds)
    (h : applyUnary operator v m = .error (.error e) m') : e.Fits ts m ∧ m' = m := by
  rcases applyUnary_eq_or hkind v with ⟨u, hu⟩ | ⟨kind, hraised, habort⟩
  · rw [hu] at h
    cases h
  · rw [habort] at h
    exact fits_of_raisedBy hmem hraised h

/-- An operator between two operands stops at a runtime error of its own kind. -/
theorem fits_of_applyBinary {ts : List Token} (hmem : operator ∈ ts)
    (hkind : operator.kind ∈ binaryKinds)
    (h : applyBinary operator v w m = .error (.error e) m') : e.Fits ts m ∧ m' = m := by
  rcases applyBinary_eq_or hkind v w with ⟨u, hu⟩ | ⟨kind, hraised, habort⟩
  · rw [hu] at h
    cases h
  · rw [habort] at h
    exact fits_of_raisedBy hmem hraised h

/-- Looking a name up stops only if the name is not bound. -/
theorem fits_of_lookup {ts : List Token} (hmem : name ∈ ts) (hkind : name.kind = .identifier)
    (h : lookup name m = .error (.error e) m') : e.Fits ts m ∧ m' = m := by
  unfold lookup at h
  cases hget : m.chain.get? name.lexeme with
  | some v =>
    rw [hget] at h
    cases h
  | none =>
    rw [hget] at h
    cases h
    exact ⟨⟨hmem, by simp [hkind, RuntimeErrorKind.places], fun _ => hget⟩, rfl⟩

/-- Assigning to a name stops only if the name is not bound. -/
theorem fits_of_assign {ts : List Token} (hmem : name ∈ ts) (hkind : name.kind = .identifier)
    (h : assign name v m = .error (.error e) m') : e.Fits ts m ∧ m' = m := by
  unfold assign at h
  cases hassign : m.chain.assign? name.lexeme v with
  | some c =>
    rw [hassign] at h
    cases h
  | none =>
    rw [hassign] at h
    cases h
    have hget := Chain.assign?_eq_none_iff.1 hassign
    exact ⟨⟨hmem, by simp [hkind, RuntimeErrorKind.places], fun _ => hget⟩, rfl⟩

/-- The entry of an expression raises no runtime error. -/
theorem noted_ne_error {kind : NodeKind} : noted kind v m ≠ .error (.error e) m' := by
  intro h
  unfold noted at h
  rcases bind_eq_error_iff.1 h with h | ⟨m₀, mid, -, h⟩
  · cases h
  · split at h
    · rcases bind_eq_error_iff.1 h with h | ⟨_, _, -, h⟩
      · -- showing a missing value is a fault and showing any other ends
        cases v with
        | none => cases h
        | some v => cases h
      · cases h
    · cases h

/-- A value shown in an entry raises no runtime error. -/
theorem noteValue_ne_error {level : Int} {text : String → String} :
    noteValue level v text m ≠ .error (.error e) m' := by
  intro h
  cases v <;> cases h

end Operations

/-! ## Expressions -/

/-- **Evaluating an expression raises the error at the moment**: at the operation itself, behind the
operands that were evaluated before it, or inside an operand. -/
inductive EvalRaises (e : RuntimeError) (moment : Machine) : Expr → Machine → Prop
  | grouping {inner m} (h : EvalRaises e moment inner m) : EvalRaises e moment (.grouping inner) m
  | operand {operator right m} (h : EvalRaises e moment right m) :
      EvalRaises e moment (.unary operator right) m
  | unary {operator right m v} (h : evaluate right m = .ok v moment)
      (he : applyUnary operator v moment = .error (.error e) moment) :
      EvalRaises e moment (.unary operator right) m
  | left {left operator right m} (h : EvalRaises e moment left m) :
      EvalRaises e moment (.binary left operator right) m
  | right {left operator right m v mid} (hleft : evaluate left m = .ok v mid)
      (h : EvalRaises e moment right mid) : EvalRaises e moment (.binary left operator right) m
  | binary {left operator right m v mid w} (hleft : evaluate left m = .ok v mid)
      (hright : evaluate right mid = .ok w moment)
      (he : applyBinary operator v w moment = .error (.error e) moment) :
      EvalRaises e moment (.binary left operator right) m
  | logicalLeft {left operator right m} (h : EvalRaises e moment left m) :
      EvalRaises e moment (.logical left operator right) m
  | logicalRight {left operator right m v mid} (hleft : evaluate left m = .ok v mid)
      (hopen : decides operator v = false) (h : EvalRaises e moment right mid) :
      EvalRaises e moment (.logical left operator right) m
  | reference {name} (he : lookup name moment = .error (.error e) moment) :
      EvalRaises e moment (.reference name) moment
  | assigned {name inner m} (h : EvalRaises e moment inner m) :
      EvalRaises e moment (.assign name inner) m
  | assign {name inner m v} (h : evaluate inner m = .ok v moment)
      (he : Run.assign name v moment = .error (.error e) moment) :
      EvalRaises e moment (.assign name inner) m

/-- **An evaluation that stops at a runtime error raises it at some moment.** -/
theorem exists_evalRaises {ts : List Token} {x : Expr} (hx : x.Drawn ts) {e : RuntimeError}
    {m m' : Machine} (h : evaluate x m = .error (.error e) m') :
    ∃ moment, EvalRaises e moment x m := by
  induction x generalizing m m' with
  | literal value => exact absurd h noted_ne_error
  | grouping inner ih =>
    rcases bind_eq_error_iff.1 h with h | ⟨v, mid, -, h⟩
    · obtain ⟨moment, hraises⟩ := ih hx h
      exact ⟨moment, .grouping hraises⟩
    · exact absurd h noted_ne_error
  | unary operator right ih =>
    rcases bind_eq_error_iff.1 h with h | ⟨v, mid, hright, h⟩
    · obtain ⟨moment, hraises⟩ := ih hx.2.2 h
      exact ⟨moment, .operand hraises⟩
    · rcases bind_eq_error_iff.1 h with h | ⟨w, mid', -, h⟩
      · obtain ⟨-, rfl⟩ := fits_of_applyUnary hx.1 hx.2.1 h
        exact ⟨m', .unary hright h⟩
      · exact absurd h noted_ne_error
  | binary left operator right ihLeft ihRight =>
    obtain ⟨hxLeft, ⟨hmem, hkind⟩, hxRight⟩ := hx
    rcases bind_eq_error_iff.1 h with h | ⟨v, mid, hleft, h⟩
    · obtain ⟨moment, hraises⟩ := ihLeft hxLeft h
      exact ⟨moment, .left hraises⟩
    · rcases bind_eq_error_iff.1 h with h | ⟨w, mid', hright, h⟩
      · obtain ⟨moment, hraises⟩ := ihRight hxRight h
        exact ⟨moment, .right hleft hraises⟩
      · rcases bind_eq_error_iff.1 h with h | ⟨u, mid'', -, h⟩
        · obtain ⟨-, rfl⟩ := fits_of_applyBinary hmem hkind h
          exact ⟨m', .binary hleft hright h⟩
        · exact absurd h noted_ne_error
  | logical left operator right ihLeft ihRight =>
    rcases bind_eq_error_iff.1 h with h | ⟨v, mid, hleft, h⟩
    · obtain ⟨moment, hraises⟩ := ihLeft hx.1 h
      exact ⟨moment, .logicalLeft hraises⟩
    · -- only the right operand is left to raise the error, and only if it is evaluated
      change (if decides operator v = true then pure v >>= noted .logical
        else evaluate right >>= noted .logical) mid = _ at h
      split at h
      · rcases bind_eq_error_iff.1 h with h | ⟨w, mid', -, h⟩
        · cases h
        · exact absurd h noted_ne_error
      · next hopen =>
        rcases bind_eq_error_iff.1 h with h | ⟨w, mid', -, h⟩
        · obtain ⟨moment, hraises⟩ := ihRight hx.2.2 h
          exact ⟨moment, .logicalRight hleft (Bool.not_eq_true _ ▸ hopen) hraises⟩
        · exact absurd h noted_ne_error
  | reference name =>
    rcases bind_eq_error_iff.1 h with h | ⟨v, mid, -, h⟩
    · obtain ⟨-, rfl⟩ := fits_of_lookup hx.1 hx.2 h
      exact ⟨m', .reference h⟩
    · exact absurd h noted_ne_error
  | assign name inner ih =>
    obtain ⟨⟨hmem, hkind⟩, hinner⟩ := hx
    rcases bind_eq_error_iff.1 h with h | ⟨v, mid, hv, h⟩
    · obtain ⟨moment, hraises⟩ := ih hinner h
      exact ⟨moment, .assigned hraises⟩
    · rcases bind_eq_error_iff.1 h with h | ⟨_, mid', -, h⟩
      · obtain ⟨-, rfl⟩ := fits_of_assign hmem hkind h
        exact ⟨m', .assign hv h⟩
      · rcases bind_eq_error_iff.1 h with h | ⟨_, mid'', -, h⟩
        · exact absurd h noteValue_ne_error
        · exact absurd h noted_ne_error
  | misplaced node => exact hx.elim

/-- **What evaluating an expression drawn from tokens raises fits.** -/
theorem EvalRaises.fits {ts : List Token} {e : RuntimeError} {moment m : Machine} {x : Expr}
    (h : EvalRaises e moment x m) (hx : x.Drawn ts) : e.Fits ts moment := by
  induction h with
  | grouping h ih => exact ih hx
  | operand h ih => exact ih hx.2.2
  | unary h he => exact (fits_of_applyUnary hx.1 hx.2.1 he).1
  | left h ih => exact ih hx.1
  | right hleft h ih => exact ih hx.2.2
  | binary hleft hright he => exact (fits_of_applyBinary hx.2.1.1 hx.2.1.2 he).1
  | logicalLeft h ih => exact ih hx.1
  | logicalRight hleft hopen h ih => exact ih hx.2.2
  | reference he => exact (fits_of_lookup hx.1 hx.2 he).1
  | assigned h ih => exact ih hx.2
  | assign h he => exact (fits_of_assign hx.1.1 hx.1.2 he).1

/-! ## Statements -/

/-- An action in a scope of its own stops only if it does in the opened scope. -/
theorem exists_eq_error_of_inScope {α : Type} {body : Run α} {stop : Stop} {m m' : Machine}
    (h : inScope body m = .error stop m') : ∃ m'', body (entered m) = .error stop m'' := by
  rw [inScope_eq] at h
  cases hbody : body (entered m) with
  | ok a m'' =>
    rw [hbody] at h
    cases h
  | error stop' m'' =>
    rw [hbody] at h
    cases h
    exact ⟨m'', rfl⟩

/-- **Executing a statement raises the error at the moment**: evaluating one of its expressions
does, or executing a statement inside it, behind what was executed before. -/
inductive ExecRaises (fuel : Nat) (e : RuntimeError) (moment : Machine) : Stmt → Machine → Prop
  | expression {inner m} (h : EvalRaises e moment inner m) :
      ExecRaises fuel e moment (.expression inner) m
  | print {inner m} (h : EvalRaises e moment inner m) : ExecRaises fuel e moment (.print inner) m
  | declaration {name initializer m} (h : EvalRaises e moment initializer m) :
      ExecRaises fuel e moment (.declaration name (some initializer)) m
  | block {before s after m mid} (hbefore : executeAll fuel before (entered m) = .ok () mid)
      (h : ExecRaises fuel e moment s mid) :
      ExecRaises fuel e moment (.block (before ++ s :: after)) m
  | condition {condition thenBranch elseBranch m} (h : EvalRaises e moment condition m) :
      ExecRaises fuel e moment (.branch condition thenBranch elseBranch) m
  | thenBranch {condition thenBranch elseBranch m mid}
      (htaken : branchTaken condition m = .ok true mid)
      (h : ExecRaises fuel e moment thenBranch mid) :
      ExecRaises fuel e moment (.branch condition thenBranch elseBranch) m
  | elseBranch {condition thenBranch elseBranch m mid}
      (htaken : branchTaken condition m = .ok false mid)
      (h : ExecRaises fuel e moment elseBranch mid) :
      ExecRaises fuel e moment (.branch condition thenBranch (some elseBranch)) m
  | test {condition body m} (h : EvalRaises e moment condition m) :
      ExecRaises fuel e moment (.loop condition body) m
  | body {condition body m mid} (hholds : holds condition m = .ok true mid)
      (h : ExecRaises fuel e moment body mid) : ExecRaises fuel e moment (.loop condition body) m
  | round {condition body m mid v mid'} (hholds : holds condition m = .ok true mid)
      (hbody : execute fuel body mid = .ok v mid')
      (h : ExecRaises fuel e moment (.loop condition body) mid') :
      ExecRaises fuel e moment (.loop condition body) m

variable {ts : List Token} {e : RuntimeError} {fuel : Nat}

/-- A condition that stops at a runtime error raises it. -/
theorem exists_evalRaises_of_holds {condition : Expr} (hcondition : condition.Drawn ts)
    {m m' : Machine} (h : holds condition m = .error (.error e) m') :
    ∃ moment, EvalRaises e moment condition m :=
  exists_evalRaises hcondition (map_eq_error_iff.1 h)

/-- The condition of a branch that stops at a runtime error raises it. -/
theorem exists_evalRaises_of_branchTaken {condition : Expr} (hcondition : condition.Drawn ts)
    {m m' : Machine} (h : branchTaken condition m = .error (.error e) m') :
    ∃ moment, EvalRaises e moment condition m := by
  rcases bind_eq_error_iff.1 h with h | ⟨_, _, -, h⟩
  · exact exists_evalRaises_of_holds hcondition h
  · cases h

/-- Rounds that stop at a runtime error raise it in the test or the body of one of them. The
induction is on the rounds granted. -/
theorem exists_execRaises_of_repeatWhile {condition : Expr} {body : Stmt}
    (hcondition : condition.Drawn ts)
    (hbody : ∀ m m', execute fuel body m = .error (.error e) m' →
      ∃ moment, ExecRaises fuel e moment body m) {rounds count : Nat} {m m' : Machine}
    (h : repeatWhile (holds condition) (discard (execute fuel body)) rounds count m
      = .error (.error e) m') :
    ∃ moment, ExecRaises fuel e moment (.loop condition body) m := by
  induction rounds generalizing count m with
  | zero => cases h
  | succ rounds ih =>
    unfold repeatWhile at h
    rcases bind_eq_error_iff.1 h with h | ⟨goesOn, mid, hholds, h⟩
    · obtain ⟨moment, hraises⟩ := exists_evalRaises_of_holds hcondition h
      exact ⟨moment, .test hraises⟩
    · -- behind a test that holds: the body raises it, or a later round does
      cases goesOn with
      | false => cases h
      | true =>
        rcases bind_eq_error_iff.1 h with h | ⟨_, mid', hdiscard, h⟩
        · obtain ⟨moment, hraises⟩ := hbody mid m' (map_eq_error_iff.1 h)
          exact ⟨moment, .body hholds hraises⟩
        · obtain ⟨v, hv, -⟩ := map_eq_ok_iff.1 hdiscard
          obtain ⟨moment, hraises⟩ := ih h
          exact ⟨moment, .round hholds hv hraises⟩

mutual

/-- **An execution that stops at a runtime error raises it at some moment.** -/
theorem exists_execRaises : ∀ s : Stmt, s.Drawn ts → ∀ m m' : Machine,
    execute fuel s m = .error (.error e) m' → ∃ moment, ExecRaises fuel e moment s m
  | .expression inner, hs, m, m', h => by
    obtain ⟨moment, hraises⟩ := exists_evalRaises hs h
    exact ⟨moment, .expression hraises⟩
  | .print inner, hs, m, m', h => by
    rcases bind_eq_error_iff.1 h with h | ⟨v, mid, -, h⟩
    · obtain ⟨moment, hraises⟩ := exists_evalRaises hs h
      exact ⟨moment, .print hraises⟩
    · -- printing what was evaluated raises no runtime error
      cases v <;> cases h
  | .declaration name none, hs, m, m', h => by cases h
  | .declaration name (some initializer), hs, m, m', h => by
    rcases bind_eq_error_iff.1 h with h | ⟨v, mid, -, h⟩
    · obtain ⟨moment, hraises⟩ := exists_evalRaises hs.2 h
      exact ⟨moment, .declaration hraises⟩
    · cases v <;> cases h
  | .block body, hs, m, m', h => by
    rcases bind_eq_error_iff.1 h with h | ⟨_, _, -, h⟩
    · -- the scope was still open where the error was raised
      obtain ⟨m'', h⟩ := exists_eq_error_of_inScope h
      obtain ⟨before, s, after, mid, moment, rfl, hbefore, hraises⟩ :=
        exists_execRaises_of_executeAll body hs _ _ h
      exact ⟨moment, .block hbefore hraises⟩
    · cases h
  | .branch condition thenBranch none, hs, m, m', h => by
    rcases bind_eq_error_iff.1 h with h | ⟨taken, mid, htaken, h⟩
    · obtain ⟨moment, hraises⟩ := exists_evalRaises_of_branchTaken hs.1 h
      exact ⟨moment, .condition hraises⟩
    · cases taken with
      | false => cases h
      | true =>
        rcases bind_eq_error_iff.1 h with h | ⟨_, _, -, h⟩
        · obtain ⟨moment, hraises⟩ := exists_execRaises thenBranch hs.2 _ _ h
          exact ⟨moment, .thenBranch htaken hraises⟩
        · cases h
  | .branch condition thenBranch (some elseBranch), hs, m, m', h => by
    rcases bind_eq_error_iff.1 h with h | ⟨taken, mid, htaken, h⟩
    · obtain ⟨moment, hraises⟩ := exists_evalRaises_of_branchTaken hs.1 h
      exact ⟨moment, .condition hraises⟩
    · cases taken with
      | false =>
        rcases bind_eq_error_iff.1 h with h | ⟨_, _, -, h⟩
        · obtain ⟨moment, hraises⟩ := exists_execRaises elseBranch hs.2.2 _ _ h
          exact ⟨moment, .elseBranch htaken hraises⟩
        · cases h
      | true =>
        rcases bind_eq_error_iff.1 h with h | ⟨_, _, -, h⟩
        · obtain ⟨moment, hraises⟩ := exists_execRaises thenBranch hs.2.1 _ _ h
          exact ⟨moment, .thenBranch htaken hraises⟩
        · cases h
  | .loop condition body, hs, m, m', h => by
    rcases bind_eq_error_iff.1 h with h | ⟨_, _, -, h⟩
    · exact exists_execRaises_of_repeatWhile hs.1 (exists_execRaises body hs.2) h
    · cases h
  | .misplaced node, hs, m, m', h => hs.elim

/-- Statements that stop at a runtime error raise it in one of them, behind the ones before it. -/
theorem exists_execRaises_of_executeAll : ∀ ss : List Stmt, Stmt.AllDrawn ts ss →
    ∀ m m' : Machine, executeAll fuel ss m = .error (.error e) m' →
      ∃ before s after mid moment, ss = before ++ s :: after ∧
        executeAll fuel before m = .ok () mid ∧ ExecRaises fuel e moment s mid
  | [], _, m, m', h => by cases h
  | s :: rest, hss, m, m', h => by
    rcases bind_eq_error_iff.1 h with h | ⟨v, mid, hv, h⟩
    · obtain ⟨moment, hraises⟩ := exists_execRaises s hss.1 m m' h
      exact ⟨[], s, rest, m, moment, rfl, rfl, hraises⟩
    · obtain ⟨before, s', after, mid', moment, rfl, hbefore, hraises⟩ :=
        exists_execRaises_of_executeAll rest hss.2 mid m' h
      refine ⟨s :: before, s', after, mid', moment, rfl, ?_, hraises⟩
      exact bind_eq_ok_iff.2 ⟨v, mid, hv, hbefore⟩

end

/-- **What executing a statement drawn from tokens raises fits.** -/
theorem ExecRaises.fits {moment m : Machine} {s : Stmt} (h : ExecRaises fuel e moment s m)
    (hs : s.Drawn ts) : e.Fits ts moment := by
  induction h with
  | expression h => exact h.fits hs
  | print h => exact h.fits hs
  | declaration h => exact h.fits hs.2
  | block hbefore h ih => exact ih (Stmt.allDrawn_iff.1 hs _ (by simp))
  -- with an `else` or without, the condition and the first branch are drawn alike
  | @condition _ _ elseBranch _ h =>
    cases elseBranch with
    | none => exact h.fits hs.1
    | some elseBranch => exact h.fits hs.1
  | @thenBranch _ _ elseBranch _ _ htaken h ih =>
    cases elseBranch with
    | none => exact ih hs.2
    | some elseBranch => exact ih hs.2.1
  | elseBranch htaken h ih => exact ih hs.2.2
  | test h => exact h.fits hs.1
  | body hholds h ih => exact ih hs.2
  | round hholds hbody h ih => exact ih hs

end Run

end Lox
