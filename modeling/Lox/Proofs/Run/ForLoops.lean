import Lox.Proofs.Grammar.Statements
import Lox.Proofs.Run.Blind
import Lox.Proofs.Run.Scopes

/-! # What a `for` loop means

A `for` loop has no node of its own. The tree that it is read as evaluates the increment together
with the body, in a scope that it opens for every round, and opens no other scope if there is no
initializer. A `for` loop of the language has one scope, in which the initializer, the condition and
the increment are run. Both come to the same, because no statement that may stand as a body declares
a name in the scope it is executed in.

* **`Run.forLoop`** — the rounds of a `for` loop in its own scope;
* **`Run.inStep_forLoop`** — the tree of a `for` loop runs like that;
* **`Run.Prepared`**, **`Run.Tested`** — the machines on which a loop starts, and those on which its
  condition is evaluated;
* **`Run.execute_forLoop`** — what `for` loops do, and what their clauses see. -/

namespace Lox

open Surface

namespace Stmt

variable {condition increment : Option Expr} {body : Stmt}

/-- The round in the tree of a `for` loop: its body, in a block with the increment if there is
one. -/
def forRound : Option Expr → Stmt → Stmt
  | none, body => body
  | some increment, body => .block [body, .expression increment]

/-- The loop in the tree of a `for` loop. -/
def forRounds (condition increment : Option Expr) (body : Stmt) : Stmt :=
  .loop (condition.getD (.literal (some (.boolean true)))) (forRound increment body)

theorem forLoop_none :
    forLoop none condition increment body = forRounds condition increment body := by
  cases increment <;> rfl

theorem forLoop_some (initializer : Stmt) :
    forLoop (some initializer) condition increment body =
      .block [initializer, forRounds condition increment body] := by
  cases increment <;> rfl

end Stmt

namespace Run

/-! ## The loop in its own scope -/

/-- Executes the initializer of a loop, if there is one. -/
def prepare (fuel : Nat) : Option Stmt → Run Unit
  | none => return
  | some s => discard (execute fuel s)

/-- Whether the condition of a loop holds; one that is left out always does. -/
def goesOn : Option Expr → Run Bool
  | none => return true
  | some condition => holds condition

/-- Evaluates the increment of a loop, if there is one. -/
def advance : Option Expr → Run Unit
  | none => return
  | some increment => discard (evaluate increment)

/-- A round of a `for` loop: its body, and then its increment. -/
def round (fuel : Nat) (increment : Option Expr) (body : Stmt) : Run Unit := do
  discard (execute fuel body)
  advance increment

/-- **What a `for` loop means**: one scope is opened, the initializer is executed in it, and then
the rounds follow as long as the condition holds, all in that scope. It is closed however the loop
ends. -/
def forLoop (fuel : Nat) (initializer : Option Stmt) (condition increment : Option Expr)
    (body : Stmt) : Run (Option Value) := do
  inScope do
    prepare fuel initializer
    discard (repeatWhile (goesOn condition) (round fuel increment body) fuel 0)
  return none

/-! ## Trees of `for` loops -/

section Trees

variable {Q : Machine → Machine → Prop} {condition increment : Option Expr} {body : Stmt}

/-- The condition of the tree is in step with that of the loop. -/
theorem inStep_goesOn (h : Bond Set.univ True Q) (condition : Option Expr) :
    InStep id Q (fun _ => True) (holds (condition.getD (.literal (some (.boolean true)))))
      (goesOn condition) := by
  cases condition with
  | none =>
    intro m m' hq
    obtain ⟨t, ht, hres⟩ := exists_noted_eq_ok .literal (.boolean true) m
    have hholds : holds (.literal (some (.boolean true))) m = .ok true { m with trace := t } :=
      map_eq_ok_iff.2 ⟨_, hres, rfl⟩
    show Ended id Q _ (holds (.literal (some (.boolean true))) m) _
    rw [hholds]
    exact ⟨rfl, trivial, h.trace hq ht rfl⟩
  | some e => exact inStep_map _ (inStep_evaluate_self h.toLink e.over_univ) fun _ _ => trivial

/-- The round of the tree is in step with that of the loop. The increment and the body may be in a
scope that the loop does not open, but none of them declares a name. -/
theorem inStep_round (h : Bond Set.univ True Q) (hbody : body.declares = false) (fuel : Nat)
    (increment : Option Expr) :
    InStep id Q (fun _ => True)
      (discard (execute fuel (.forRound increment body))) (round fuel increment body) := by
  have hdefining : ∀ {Q}, body.declares = true → KeptByDefining Set.univ True Q := by simp [hbody]
  cases increment with
  | none =>
    have hround : round fuel none body = discard (execute fuel body) := bind_pure_unit
    rw [hround]
    exact inStep_map _ (inStep_execute_self fuel h body.over_univ hdefining) fun _ _ => trivial
  | some e =>
    have hround : round fuel (some e) body =
        execute fuel body >>= fun _ => evaluate e >>= fun _ => pure () := by
      rw [round, discard_bind, advance, discard_eq_bind]
    have htree : discard (execute fuel (.forRound (some e) body)) =
        inScope (execute fuel body >>= fun _ => evaluate e >>= fun _ => pure ()) := by
      rw [discard_eq_bind, Stmt.forRound, execute, bind_assoc]
      simp only [pure_bind]
      exact bind_pure_unit
    rw [hround, htree]
    refine inStep_inScope_left h ?_
    refine inStep_bind_const (inStep_execute_self fuel h.deeper body.over_univ hdefining) ?_
    exact inStep_bind_const (inStep_evaluate_self h.deeper.toLink e.over_univ) (inStep_pure trivial)

/-- The loop of the tree is in step with the rounds of the `for` loop. -/
theorem inStep_rounds (h : Bond Set.univ True Q) (hbody : body.declares = false) (fuel : Nat)
    (condition increment : Option Expr) :
    InStep id Q (fun _ => True)
      (discard (execute fuel (.forRounds condition increment body)))
      (discard (repeatWhile (goesOn condition) (round fuel increment body) fuel 0)) := by
  rw [discard_eq_bind, discard_eq_bind, Stmt.forRounds, execute, bind_assoc]
  refine inStep_bind (inStep_repeatWhile (inStep_goesOn h condition)
    (inStep_round h hbody fuel increment) fuel 0) fun rounds _ => ?_
  -- only the tree adds an entry behind its rounds
  intro m m' hq
  exact ⟨rfl, trivial, h.trace hq (Trace.level_note _ _ _) rfl⟩

end Trees

/-- A loop yields nothing. -/
theorem execute_loop_eq (fuel : Nat) (condition : Expr) (body : Stmt) :
    execute fuel (.loop condition body) =
      discard (execute fuel (.loop condition body)) >>= fun _ => pure none := by
  rw [discard_bind, execute, bind_assoc]
  simp only [bind_assoc, pure_bind]

/-- **The tree of a `for` loop runs as the loop does**, if its body declares no name. -/
theorem inStep_forLoop {body : Stmt} (hbody : body.declares = false) (fuel : Nat)
    (initializer : Option Stmt) (condition increment : Option Expr) :
    InStep id Machine.Alike (fun _ => True)
      (execute fuel (.forLoop initializer condition increment body))
      (forLoop fuel initializer condition increment body) := by
  cases initializer with
  | none =>
    -- only the loop opens a scope; seen from there, the tree is the one that has a scope less
    have hbond := (bond_alike.flip.deeper).flip
    have hrounds := inStep_inScope_left bond_alike.flip
      (inStep_rounds hbond hbody fuel condition increment).flip
    rw [Stmt.forLoop_none, Stmt.forRounds, execute_loop_eq, forLoop, prepare, pure_bind]
    exact inStep_bind_const hrounds.flip (inStep_pure trivial)
  | some s =>
    have hs := inStep_execute_self fuel bond_alike.inside s.over_univ fun _ =>
      keptByDefining_inside
    have hrounds := inStep_rounds bond_alike.inside hbody fuel condition increment
    rw [discard_eq_bind] at hrounds
    rw [Stmt.forLoop_some, execute, forLoop, prepare, discard_bind]
    have hinside := inStep_bind_const hs hrounds
    exact inStep_bind_const (inStep_inScope bond_alike hinside) (inStep_pure trivial)

/-! ## What the clauses see -/

/-- **The machines on which a loop evaluates its condition**: the one that it starts on, and then
the one that each round leaves behind. -/
inductive Tested (fuel : Nat) (condition : Expr) (body : Stmt) (start : Machine) : Machine → Prop
  | first : Tested fuel condition body start start
  | again {m mid m' : Machine} {v : Option Value} (h : Tested fuel condition body start m)
      (hholds : holds condition m = .ok true mid) (hbody : execute fuel body mid = .ok v m') :
      Tested fuel condition body start m'

/-- A body that declares no name leaves to the condition the scopes that the loop started with,
assigned to at most. -/
theorem Tested.written {fuel : Nat} {condition : Expr} {body : Stmt} {start m : Machine}
    (h : Tested fuel condition body start m) (hbody : body.declares = false) :
    start.chain.Written False m.chain := by
  induction h with
  | first => exact .refl
  | @again m mid m' v h hholds hexecute ih =>
    exact (ih.trans (written_of_holds hholds)).trans (written_of_execute hbody hexecute)

/-- The machine on which the loop in the tree of a `for` loop starts: behind the initializer, in the
scope that the tree opens if there is one. -/
def Prepared (fuel : Nat) (m : Machine) : Option Stmt → Machine → Prop
  | none, start => start = m
  | some s, start => ∃ v, execute fuel s (entered m) = .ok v start

/-- The scope that the tree of a `for` loop opens for an initializer, with the name that is declared
there. -/
def opened : ForInitializer → List (Set String)
  | .declaration d => [{d.name.token.lexeme}]
  | .expression _ => [∅]
  | .absent _ => []

/-- A loop starts with one scope more if there is an initializer, which binds the loop variable. -/
theorem Prepared.names_eq {fuel : Nat} {initializer : ForInitializer} {m start : Machine}
    (h : Prepared fuel m initializer.desugar start) :
    start.chain.names = opened initializer ++ m.chain.names := by
  cases initializer with
  | declaration d =>
    obtain ⟨v, hexecute⟩ := h
    have hnames := names_of_execute_declaration hexecute
    simpa [opened] using hnames
  | expression s =>
    obtain ⟨v, hexecute⟩ := h
    have hwritten := written_of_execute (s := s.desugar) rfl hexecute
    simpa [opened] using hwritten.names_eq
  | absent closing => rw [show start = m from h, opened, List.nil_append]

/-- **What `for` loops do.** Granted the same rounds, the tree of a `for` loop ends as the loop does
that runs its clauses and its body in one scope of its own: with the same lines printed, the same
stop if there is one, and the same scopes. These bind the names that they bound in front of it, so
the loop variable is not visible any more. While it runs, all rounds share the scope of the
initializer: wherever the condition is evaluated, the scopes are those that the loop started with,
assigned to at most, and wherever the increment is, it sees the same ones from inside a scope that
binds nothing. -/
theorem execute_forLoop (fuel : Nat) (word : Mark (.keyword .forWord)) (opening : Mark .leftParen)
    (initializer : ForInitializer) (condition : Option Expression) (separator : Mark .semicolon)
    (increment : Option Expression) (closing : Mark .rightParen) (body : Statement) (m : Machine) :
    let tree := (Statement.forLoop word opening initializer condition separator increment closing
      body).desugar
    EndAlike (execute fuel tree m)
        (forLoop fuel initializer.desugar (condition.map ExprTree.expr)
          (increment.map ExprTree.expr) body.desugar m) ∧
      (left (execute fuel tree m)).chain.names = m.chain.names ∧
      ∀ start, Prepared fuel m initializer.desugar start →
        start.chain.names = opened initializer ++ m.chain.names ∧
        ∀ moment, Tested fuel (conditionOrTrue condition) (withIncrement increment body.desugar)
            start moment →
          start.chain.Written False moment.chain ∧ moment.chain.names = start.chain.names ∧
            ∀ mid v m', holds (conditionOrTrue condition) moment = .ok true mid →
              execute fuel body.desugar (entered mid) = .ok v m' →
                ∃ c, m'.chain = .nested .empty c ∧ start.chain.Written False c ∧
                  c.names = start.chain.names := by
  intro tree
  have hbody := body.declares_desugar
  refine ⟨?_, ?_, fun start hprepared => ⟨hprepared.names_eq, fun moment htested => ?_⟩⟩
  · have hsteps := inStep_forLoop hbody fuel initializer.desugar (condition.map ExprTree.expr)
      (increment.map ExprTree.expr)
    rw [forLoop_eq] at hsteps
    exact (hsteps.mirrors m m ⟨rfl, rfl, rfl⟩).endAlike
  · exact names_execute_of_declares_eq_false (Statement.declares_desugar _) fuel m
  · have hwritten := htested.written (declares_withIncrement hbody increment)
    refine ⟨hwritten, hwritten.names_eq, fun mid v m' hholds hexecute => ?_⟩
    -- the body declares no name, so the scope that was opened for the round stays empty
    obtain ⟨c, hc, hmid⟩ := (written_of_execute hbody hexecute).of_nested_empty
    have hstart := (hwritten.trans (written_of_holds hholds)).trans hmid
    exact ⟨c, hc, hstart, hstart.names_eq⟩

/-- The loop `for (var i = true; i; i = false) print i;` where `n` is bound already. It makes one
round, in which it prints. Its condition is tested on the machine that it starts on, and again on the
one that the round leaves behind; both times `i` and `n` are the names that are bound. -/
theorem execute_forLoop_of_variable :
    let i : Token := ⟨.identifier, "i", none, 1⟩
    let initializer : Stmt := .declaration i (some (.literal (some (.boolean true))))
    let condition : Expr := .reference i
    let increment : Expr := .assign i (.literal (some (.boolean false)))
    let body : Stmt := .print (.reference i)
    let round : Stmt := .block [body, .expression increment]
    let tree : Stmt := .block [initializer, .loop condition round]
    let m : Machine := { chain := Chain.empty.define "n" (some .nil), trace := { level := 4 } }
    EndAlike (execute 2 tree m)
        (forLoop 2 (some initializer) (some condition) (some increment) body m) ∧
      (left (execute 2 tree m)).output = #["true"] ∧
      (left (execute 2 tree m)).chain.names = m.chain.names ∧
      ∃ start mid printed again, Prepared 2 m (some initializer) start ∧
        start.chain.names = [{"i"}] ++ m.chain.names ∧
        holds condition start = .ok true mid ∧
        execute 2 body (entered mid) = .ok none printed ∧
        (∃ c, printed.chain = .nested .empty c ∧ start.chain.Written False c ∧
          c.names = start.chain.names) ∧
        Tested 2 condition round start again ∧ start.chain.Written False again.chain ∧
        again.chain.names = start.chain.names ∧
        again.chain.get? "i" = some (some (.boolean false)) := by
  intro i initializer condition increment body round tree m
  let alone (e : ExprTree .primary) : Expression := .plain (e.lift .logicOr)
  let name : Mark .identifier := .ofKind (t := i) rfl
  let equals : Mark .equal := .ofKind (t := ⟨.equal, "=", none, 1⟩) rfl
  let separator : Mark .semicolon := .ofKind (t := ⟨.semicolon, ";", none, 1⟩) rfl
  let word (k : Keyword) (lexeme : String) : Mark (.keyword k) :=
    .ofKind (t := ⟨.keyword k, lexeme, none, 1⟩) rfl
  let d : VariableDeclaration :=
    ⟨word .varWord "var", name,
      some (equals, alone (.literal ⟨⟨.keyword .trueWord, "true", none, 1⟩, by decide⟩)), separator⟩
  let assignment : Expression :=
    .assign name equals (alone (.literal ⟨⟨.keyword .falseWord, "false", none, 1⟩, by decide⟩))
  obtain ⟨halike, hnames, hsees⟩ := execute_forLoop 2 (word .forWord "for")
    (.ofKind (t := ⟨.leftParen, "(", none, 1⟩) rfl) (.declaration d)
    (some (alone (.reference name))) separator (some assignment)
    (.ofKind (t := ⟨.rightParen, ")", none, 1⟩) rfl)
    (.print (word .printWord "print") (alone (.reference name)) separator) m
  let start := left (execute 2 initializer (entered m))
  let mid := left (holds condition start)
  let printed := left (execute 2 body (entered mid))
  let again := left (execute 2 round mid)
  have hprepared : Prepared 2 m (some initializer) start := ⟨none, rfl⟩
  have hholds : holds condition start = .ok true mid := rfl
  have hprints : execute 2 body (entered mid) = .ok none printed := rfl
  have hagain : Tested 2 condition round start again := .again .first hholds (v := none) rfl
  obtain ⟨hstart, hmoments⟩ := hsees start hprepared
  obtain ⟨hwritten, hunchanged, -⟩ := hmoments again hagain
  obtain ⟨-, -, hround⟩ := hmoments start .first
  exact ⟨halike, by decide +kernel, hnames, start, mid, printed, again, hprepared, hstart, hholds,
    hprints, hround mid none printed hholds hprints, hagain, hwritten, hunchanged,
    by decide +kernel⟩

end Run

end Lox
