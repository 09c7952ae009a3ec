import Lox.Proofs.Outcomes
import Lox.Run.Execute

/-! # Running statements in scopes and in programs

A block runs its statements in a scope of its own, which is closed however they end. A program runs
its statements one after the other and stops where one of them stops.

* **`entered`**, **`closed`** — the machine inside an opened scope, and behind it;
* **`program_eq_ok_iff`** — a program that ends answers what its last statement yields, behind the
  statements before it, which have all ended;
* **`program_eq_error_iff`** — a program that stops does so in one of its statements, behind the
  ones before it and whatever follows. -/

namespace Lox.Run

/-! ## Scopes of their own -/

/-- The machine inside a scope that was just opened. -/
def entered (m : Machine) : Machine :=
  { m with
    chain := m.chain.enter
    trace := m.trace.note 3 fun _ =>
      "enter block (depth " ++ toString m.chain.enter.depth ++ ")" }

/-- The machine behind a scope of the given depth that was just closed. -/
def closed (depth : Nat) (m : Machine) : Machine :=
  { m with
    chain := m.chain.leave
    trace := m.trace.note 3 fun _ => "exit block (depth " ++ toString depth ++ ")" }

@[simp] theorem chain_entered (m : Machine) : (entered m).chain = m.chain.enter := rfl

@[simp] theorem chain_closed (depth : Nat) (m : Machine) :
    (closed depth m).chain = m.chain.leave := rfl

/-- A body in a scope of its own ends as it does in the opened scope, which is closed then. -/
theorem inScope_eq {α : Type} (body : Run α) (m : Machine) :
    inScope body m =
      match body (entered m) with
      | .ok a m' => .ok a (closed m.chain.enter.depth m')
      | .error stop m' => .error stop (closed m.chain.enter.depth m') := rfl

/-! ## Programs -/

variable {fuel : Nat} {statements before : List Stmt} {s : Stmt} {m m' : Machine}
  {v w : Option Value} {stop : Stop}

/-- Behind an executed statement the others follow. -/
theorem executeAll_cons_eq_ok_iff :
    executeAll fuel (s :: statements) m = .ok () m' ↔
      ∃ v mid, execute fuel s m = .ok v mid ∧ executeAll fuel statements mid = .ok () m' := by
  rw [executeAll]
  exact bind_eq_ok_iff

/-- Statements behind a value that one before them yielded. -/
theorem foldlM_execute_eq_ok_iff :
    statements.foldlM (fun _ s => execute fuel s) w m = .ok v m' ↔
      (statements = [] ∧ v = w ∧ m' = m) ∨
        ∃ before s mid, statements = before ++ [s] ∧ executeAll fuel before m = .ok () mid ∧
          execute fuel s mid = .ok v m' := by
  -- `w` is what the statement in front of these yielded
  induction statements generalizing w m with
  | nil =>
    rw [List.foldlM_nil, pure_eq_ok_iff]
    constructor
    · rintro ⟨rfl, rfl⟩
      exact .inl ⟨rfl, rfl, rfl⟩
    · rintro (⟨-, rfl, rfl⟩ | ⟨before, s, mid, hnil, -⟩)
      · exact ⟨rfl, rfl⟩
      · cases before <;> cases hnil
  | cons s rest ih =>
    rw [List.foldlM_cons, bind_eq_ok_iff]
    simp only [ih]
    constructor
    · rintro ⟨u, mid, hs, ⟨rfl, rfl, rfl⟩ | ⟨before, last, mid', rfl, hbefore, hlast⟩⟩
      · exact .inr ⟨[], s, m, rfl, rfl, hs⟩
      · refine .inr ⟨s :: before, last, mid', rfl, ?_, hlast⟩
        exact executeAll_cons_eq_ok_iff.2 ⟨u, mid, hs, hbefore⟩
    · rintro (⟨hnil, -⟩ | ⟨before, last, mid', hcons, hbefore, hlast⟩)
      · cases hnil
      · cases before with
        | nil =>
          cases hcons
          cases hbefore
          exact ⟨v, m', hlast, .inl ⟨rfl, rfl, rfl⟩⟩
        | cons s' before =>
          cases hcons
          obtain ⟨u, mid, hs, hrest⟩ := executeAll_cons_eq_ok_iff.1 hbefore
          exact ⟨u, mid, hs, .inr ⟨before, last, mid', rfl, hrest, hlast⟩⟩

/-- **A program that ends** has executed all its statements in order, and answers what the last one
yields. -/
theorem program_eq_ok_iff :
    program fuel statements m = .ok v m' ↔
      (statements = [] ∧ v = none ∧ m' = m) ∨
        ∃ before s mid, statements = before ++ [s] ∧ executeAll fuel before m = .ok () mid ∧
          execute fuel s mid = .ok v m' :=
  foldlM_execute_eq_ok_iff

/-- Two parts of a list of statements are executed one after the other. -/
theorem executeAll_append (fuel : Nat) (before after : List Stmt) :
    executeAll fuel (before ++ after) =
      executeAll fuel before >>= fun _ => executeAll fuel after := by
  induction before with
  | nil => rfl
  | cons s before ih => simp only [List.cons_append, executeAll, ih, bind_assoc]

/-- Two parts of a list of statements end iff the second one does behind the first one. -/
theorem executeAll_append_eq_ok_iff {after : List Stmt} :
    executeAll fuel (before ++ after) m = .ok () m' ↔
      ∃ mid, executeAll fuel before m = .ok () mid ∧ executeAll fuel after mid = .ok () m' := by
  rw [executeAll_append, bind_eq_ok_iff]
  constructor
  · rintro ⟨⟨⟩, mid, hbefore, hafter⟩
    exact ⟨mid, hbefore, hafter⟩
  · rintro ⟨mid, hbefore, hafter⟩
    exact ⟨⟨⟩, mid, hbefore, hafter⟩

/-- A program that ends has executed all its statements. -/
theorem executeAll_of_program (h : program fuel statements m = .ok v m') :
    executeAll fuel statements m = .ok () m' := by
  rcases program_eq_ok_iff.1 h with ⟨rfl, -, rfl⟩ | ⟨before, s, mid, rfl, hbefore, hs⟩
  · rfl
  · rw [executeAll_append_eq_ok_iff]
    refine ⟨mid, hbefore, ?_⟩
    rw [executeAll_cons_eq_ok_iff]
    exact ⟨v, m', hs, rfl⟩

/-- **A program that stops** does so in one of its statements, behind the ones before it and
whatever follows. -/
theorem program_eq_error_iff :
    program fuel statements m = .error stop m' ↔
      ∃ before s after mid, statements = before ++ s :: after ∧
        executeAll fuel before m = .ok () mid ∧ execute fuel s mid = .error stop m' := by
  unfold program
  -- the statements in front may have yielded anything
  generalize (none : Option Value) = w
  induction statements generalizing w m with
  | nil =>
    constructor
    · intro h
      cases h
    · rintro ⟨before, s, after, mid, hnil, -⟩
      cases before <;> cases hnil
  | cons s rest ih =>
    rw [List.foldlM_cons, bind_eq_error_iff]
    simp only [ih]
    constructor
    · rintro (hs | ⟨u, mid, hs, before, s', after, mid', rfl, hbefore, hs'⟩)
      · exact ⟨[], s, rest, m, rfl, rfl, hs⟩
      · refine ⟨s :: before, s', after, mid', rfl, ?_, hs'⟩
        exact executeAll_cons_eq_ok_iff.2 ⟨u, mid, hs, hbefore⟩
    · rintro ⟨before, s', after, mid', hcons, hbefore, hs'⟩
      cases before with
      | nil =>
        cases hcons
        cases hbefore
        exact .inl hs'
      | cons s'' before =>
        cases hcons
        obtain ⟨u, mid, hs, hrest⟩ := executeAll_cons_eq_ok_iff.1 hbefore
        exact .inr ⟨u, mid, hs, before, s', after, mid', rfl, hrest, hs'⟩

end Lox.Run
