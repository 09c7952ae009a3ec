import Lox.Proofs.Run.WellScoped
import Lox.Proofs.Session.Soundness

/-! # Sessions keep their scopes

Programs are executed at the global scope of their session, and however they end the session is at
that scope again. What is executed may be assembled by hand, but only the statements that are read
keep to the scopes whose names they may add to.

* **`Session.written_runStatements`** — the scopes of a session behind statements;
* **`Session.Reachable.isGlobal`** — a reachable session is at its global scope;
* **`Session.keeps_scopes`** — what becomes of scopes and of their names;
* **`Session.knows_names`** — statements that are well scoped report no unknown name. -/

namespace Lox.Session

/-- However statements end in a session, its scopes are those from before, written to at most. -/
theorem written_runStatements (fuel : Nat) (statements : List Stmt) (s : Session) :
    s.machine.chain.Written True (left (runStatements fuel statements s)).machine.chain := by
  have hprogram := (Run.confined_program fuel statements s.machine).chain
  unfold runStatements
  cases hres : Run.program fuel statements s.machine with
  | ok v m =>
    rw [hres] at hprogram
    exact hprogram
  | error stop m =>
    rw [hres] at hprogram
    cases stop with
    | error e => exact hprogram
    | fault f => exact hprogram
    | exhausted => exact hprogram

/-- Statements leave a session at the global scope that was at it. -/
theorem isGlobal_runStatements (fuel : Nat) (statements : List Stmt) (s : Session) :
    (left (runStatements fuel statements s)).machine.chain.isGlobal = s.machine.chain.isGlobal :=
  Chain.isGlobal_eq_of_depth_eq (written_runStatements fuel statements s).depth_eq

/-- **A reachable session is at its global scope.** -/
theorem Reachable.isGlobal {s : Session} (h : Reachable s) : s.machine.chain.isGlobal = true :=
  h.chain_induction (P := fun c => c.isGlobal = true) rfl fun fuel source _ s' hs' =>
    (isGlobal_runStatements fuel source.statements s').trans hs'

/-- **Scopes are kept.** However a statement ends, be it assembled by hand, the scopes in force are
those that were, each inside the one it was in. Statements that a session runs do so as well, and
leave a session at its global scope, which every reachable session is at. A statement that is read
leaves every scope the names it had, but for the name that a declaration adds to the innermost one;
and evaluating an expression adds no name and prints nothing. -/
theorem keeps_scopes :
    (∀ (fuel : Nat) (s : Stmt) (m : Machine),
      m.chain.Written True (Run.left (Run.execute fuel s m)).chain ∧
        (Run.left (Run.execute fuel s m)).chain.depth = m.chain.depth) ∧
    (∀ (fuel : Nat) (statements : List Stmt) (s : Session),
      s.machine.chain.Written True (left (runStatements fuel statements s)).machine.chain ∧
        (left (runStatements fuel statements s)).machine.chain.isGlobal =
          s.machine.chain.isGlobal) ∧
    (∀ s : Session, Reachable s → s.machine.chain.isGlobal = true) ∧
    (∀ (fuel : Nat) (s : Stmt) (m : Machine), s.Readable →
      (Run.left (Run.execute fuel s m)).chain.names =
        m.chain.names.modifyHead (Run.added s m ∪ ·)) ∧
    ∀ (e : Expr) (m : Machine), (Run.left (Run.evaluate e m)).chain.names = m.chain.names ∧
      (Run.left (Run.evaluate e m)).output = m.output := by
  refine ⟨fun fuel s m => ?_, fun fuel statements s => ?_, fun s hs => hs.isGlobal,
    fun fuel s m hs => Run.names_execute hs fuel m, fun e m => ?_⟩
  · have hwritten := (Run.confined_execute fuel s (fun _ => trivial) m).chain
    exact ⟨hwritten, hwritten.depth_eq⟩
  · exact ⟨written_runStatements fuel statements s, isGlobal_runStatements fuel statements s⟩
  · have hreaches : m.Reaches False False (Run.left (Run.evaluate e m)) := Run.confined_evaluate e m
    exact ⟨hreaches.chain.names_eq, hreaches.output.resolve_left id⟩

/-- The declaration of a name without an initializer is readable; executed where nothing is bound,
it leaves its name as the only one. -/
theorem keeps_scopes_of_declaration :
    Stmt.Readable (.declaration ⟨.identifier, "a", none, 1⟩ none) ∧
      (Run.left (Run.execute 0 (.declaration ⟨.identifier, "a", none, 1⟩ none) {})).chain.names =
        [{"a"}] := by
  have hread := Grammar.readAs_declaration (.ofKind (t := ⟨.keyword .varWord, "var", none, 1⟩) rfl)
    (.ofKind (t := ⟨.identifier, "a", none, 1⟩) rfl) (.ofKind (t := ⟨.semicolon, ";", none, 1⟩) rfl)
    (.ofKind (t := ⟨.endOfInput, "", none, 1⟩) rfl)
  have hreadable := hread.readable (List.mem_singleton_self _)
  refine ⟨hreadable, (keeps_scopes.2.2.2.1 0 _ {} hreadable).trans ?_⟩
  show [{"a"} ∪ Bindings.empty.names] = [{"a"}]
  simp [Bindings.names, Bindings.binds]

/-- **Statements that are well scoped know their names.** Where the scopes of a session bind the
names that are visible from the start, the statements stop at no unknown name, whatever branches
they take and however long they run; what they report, if anything, is another error. -/
theorem knows_names {visible : Set String} {statements : List Stmt} {s : Session}
    (hscoped : Stmt.AllWellScoped visible statements) (hbinds : s.machine.chain.Binds visible)
    (fuel : Nat) :
    (∀ stop m, Run.program fuel statements s.machine = .error stop m → ¬stop.NamesUnknown) ∧
      ((left (runStatements fuel statements s)).ledger = s.ledger ∨
        ∃ e, (left (runStatements fuel statements s)).ledger = s.ledger.aborted e ∧
          e.kind ≠ .undefinedVariable) := by
  have hknown := Run.assured_program fuel hscoped s.machine hbinds
  refine ⟨fun stop m hstop => ?_, ?_⟩
  · rw [hstop] at hknown
    exact hknown
  · -- a session reports the error that stops its statements, and nothing else
    unfold runStatements
    cases hres : Run.program fuel statements s.machine with
    | ok v m => exact .inl rfl
    | error stop m =>
      rw [hres] at hknown
      cases stop with
      | error e =>
        refine .inr ⟨e, ?_, hknown⟩
        rfl
      | fault f => exact .inl rfl
      | exhausted => exact .inl rfl

/-- A block that declares a name as one that the session binds, and prints it, stops at no unknown
name. -/
theorem knows_names_of_block :
    ¬∃ stop m, Run.program 0
        [.block [.declaration ⟨.identifier, "b", none, 1⟩
            (some (.reference ⟨.identifier, "a", none, 1⟩)),
          .print (.reference ⟨.identifier, "b", none, 2⟩)]]
        { chain := Chain.empty.define "a" (some .nil) } = .error stop m ∧ stop.NamesUnknown := by
  let s : Session := { machine := { chain := Chain.empty.define "a" (some .nil) } }
  have hbinds : s.machine.chain.Binds {"a"} := by
    rintro x rfl
    simp [s, Chain.get?_define]
  rintro ⟨stop, m, hstop, hunknown⟩
  refine (knows_names (s := s) ?_ hbinds 0).1 stop m hstop hunknown
  -- the block sees the name from the start, and its own one behind the declaration
  simp [Stmt.AllWellScoped, Stmt.WellScoped, Expr.WellScoped, Stmt.visibleBehind]

end Lox.Session
