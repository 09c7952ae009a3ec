import Lox.Proofs.Run.Blind

/-! # What a run does to the scopes

Whatever a statement does and however it ends, the scopes in force are the ones that were in force
before it: those that it opened are closed, and the others were written to at most. A statement that
declares nothing itself adds no name to them, and evaluating an expression prints nothing either.

* **`Machine.Reaches`** — a machine behind an action that may define names, or print;
* **`Run.Confined`** — an action leaves such a machine behind, however it ends;
* **`Run.InStep.alone`** — what a run in step with itself keeps of the machine;
* **`Run.confined_evaluate`**, **`Run.confined_execute`**, **`Run.confined_program`** — expressions,
  statements and programs are confined;
* **`Run.names_execute`** — the names that a readable statement leaves to each scope. -/

namespace Lox

/-- **A machine behind an action**: its scopes were written to, by definitions only if `defines`
allows them, and nothing was printed unless `prints` allows it. -/
structure Machine.Reaches (defines prints : Prop) (m m' : Machine) : Prop where
  chain : m.chain.Written defines m'.chain
  output : prints ∨ m'.output = m.output

namespace Machine.Reaches

variable {defines prints : Prop} {m m' m'' : Machine}

theorem refl (m : Machine) : m.Reaches defines prints m := ⟨.refl, .inr rfl⟩

theorem trans (h : m.Reaches defines prints m') (h' : m'.Reaches defines prints m'') :
    m.Reaches defines prints m'' := by
  refine ⟨h.chain.trans h'.chain, ?_⟩
  rcases h.output with hprints | heq
  · exact .inl hprints
  · exact h'.output.imp_right (·.trans heq)

/-- A machine with the same scopes and lines. -/
theorem of_eq (hchain : m'.chain = m.chain) (houtput : m'.output = m.output) :
    m.Reaches defines prints m' :=
  ⟨hchain ▸ .refl, .inr houtput⟩

end Machine.Reaches

namespace Run

/-- The machine that an action leaves behind, however it ended. -/
def left {α : Type} : EStateM.Result Stop Machine α → Machine
  | .ok _ m => m
  | .error _ m => m

/-- **An action is confined**: however it ends, the scopes in force are those from before. It
defines names in the innermost one only if `defines` allows it, and prints only if `prints` does. -/
def Confined {α : Type} (defines prints : Prop) (action : Run α) : Prop :=
  ∀ m : Machine, m.Reaches defines prints (left (action m))

variable {α : Type} {defines prints : Prop}

/-! ## One run and itself -/

/-- A machine and one that is alike, where something is true of the first one. -/
def Alone (I : Machine → Prop) (m m' : Machine) : Prop := m.Alike m' ∧ I m

/-- An action that is in step with itself keeps what is true of the machine. -/
theorem InStep.alone {I : Machine → Prop} {P : α → Prop} {x : Run α}
    (h : InStep id (Alone I) P x x) {m : Machine} (hm : I m) : I (left (x m)) := by
  have halone : Alone I m m := ⟨⟨rfl, rfl, rfl⟩, hm⟩
  rcases (h m m halone).ok_or_error with
    ⟨a, mid, mid', hres, -, -, hmid⟩ | ⟨stop, mid, mid', hres, -, hmid⟩
  · rw [hres]
    exact hmid.2
  · rw [hres]
    exact hmid.2

/-- Whatever expressions do, it is something that an action may do. -/
theorem link_reaches (start : Machine) :
    Link Set.univ True (Alone (start.Reaches defines prints)) where
  get?_eq h _ _ := by rw [h.1.chain]
  shown _ _ _ _ _ := .inl trivial
  assign h _ hx _ hv _ _ hc hc' :=
    ⟨bond_alike.assign h.1 hx hv hc hc', h.2.trans ⟨.assign .refl hc, .inr rfl⟩⟩
  trace h _ _ ht ht' := ⟨bond_alike.trace h.1 ht ht', h.2.trans (.of_eq rfl rfl)⟩
  level h _ := h.1.level

/-- Whatever statements do but definitions, it is something that an action may do that prints. -/
theorem bond_reaches (start : Machine) :
    Bond Set.univ True (Alone (start.Reaches defines True)) where
  toLink := link_reaches start
  print h line := ⟨bond_alike.print h.1 line, h.2.trans ⟨.refl, .inl trivial⟩⟩

/-- Definitions are something that an action may do that defines names. -/
theorem keptByDefining_reaches (hdefines : defines) (start : Machine) :
    KeptByDefining Set.univ True (Alone (start.Reaches defines prints)) :=
  fun _ _ h x hx v hv => ⟨keptByDefining_alike h.1 hx hv,
    h.2.trans ⟨.define .refl hdefines x v, .inr rfl⟩⟩

/-! ## Whatever is run -/

/-- **Evaluating an expression** changes no scope but by assignments, and prints nothing. -/
theorem confined_evaluate (e : Expr) : Confined defines prints (evaluate e) := fun m =>
  (inStep_evaluate_self (link_reaches m) e.over_univ).alone (.refl m)

/-- A condition. -/
theorem confined_holds (condition : Expr) : Confined defines prints (holds condition) := fun m =>
  (inStep_holds (inStep_evaluate_self (link_reaches m) condition.over_univ)).alone (.refl m)

/-- **Executing a statement** leaves the scopes in force that were, and defines names in the
innermost one only if the statement declares some. -/
theorem confined_execute (fuel : Nat) (s : Stmt) (h : s.declares = true → defines) :
    Confined defines True (execute fuel s) := fun m =>
  (inStep_execute_self fuel (bond_reaches m) s.over_univ fun hs =>
    keptByDefining_reaches (h hs) m).alone (.refl m)

/-- Statements in a row, which may declare names. -/
theorem confined_executeAll (fuel : Nat) (statements : List Stmt) :
    Confined True True (executeAll fuel statements) := by
  intro m
  have hstep := inStep_executeAll (f := id) fuel statements (bond_reaches m)
    (Stmt.allOver_univ statements) (keptByDefining_reaches trivial m)
  rw [Stmt.allMoved_id] at hstep
  exact hstep.alone (.refl m)

/-- **Running a program** leaves the scopes in force that were. -/
theorem confined_program (fuel : Nat) (statements : List Stmt) :
    Confined True True (program fuel statements) := fun m =>
  (inStep_program_self fuel (bond_reaches m) (keptByDefining_reaches trivial m)
    (Stmt.allOver_univ statements)).alone (.refl m)

/-- A condition that is evaluated assigns at most. -/
theorem written_of_holds {condition : Expr} {b : Bool} {m m' : Machine}
    (h : holds condition m = .ok b m') : m.chain.Written False m'.chain := by
  have hconfined : Confined False False (holds condition) := confined_holds condition
  have hm := (hconfined m).chain
  rwa [h] at hm

/-- A statement that declares no name assigns at most. -/
theorem written_of_execute {fuel : Nat} {s : Stmt} {v : Option Value} {m m' : Machine}
    (hs : s.declares = false) (h : execute fuel s m = .ok v m') :
    m.chain.Written False m'.chain := by
  have hconfined : Confined False True (execute fuel s) := confined_execute fuel s (by simp [hs])
  have hm := (hconfined m).chain
  rwa [h] at hm

/-! ## The names of the scopes -/

/-- The names that a readable statement adds to the scope that it is executed in: the name of a
declaration without an initializer, or with one whose evaluation ends. -/
def added : Stmt → Machine → Set String
  | .declaration name none, _ => {name.lexeme}
  | .declaration name (some initializer), m =>
    match evaluate initializer m with
    | .ok _ _ => {name.lexeme}
    | .error _ _ => ∅
  | _, _ => ∅

/-- An initializer that stops keeps its declaration from adding the name. -/
theorem added_of_eq_error {name : Token} {e : Expr} {stop : Stop} {m mid : Machine}
    (h : evaluate e m = .error stop mid) : added (.declaration name (some e)) m = ∅ := by
  rw [added, h]

/-- An initializer that ends lets its declaration add the name. -/
theorem added_of_eq_ok {name : Token} {e : Expr} {v : Option Value} {m mid : Machine}
    (h : evaluate e m = .ok v mid) : added (.declaration name (some e)) m = {name.lexeme} := by
  rw [added, h]

/-- Where no name is added the scopes have the names that they had. -/
theorem modifyHead_empty_union (names : List (Set String)) : names.modifyHead (∅ ∪ ·) = names := by
  cases names with
  | nil => rfl
  | cons own rest => simp

/-- A statement that declares no name leaves every scope its names. -/
theorem names_execute_of_declares_eq_false {s : Stmt} (h : s.declares = false) (fuel : Nat)
    (m : Machine) : (left (execute fuel s m)).chain.names = m.chain.names := by
  have hfalse : s.declares = true → False := by simp [h]
  exact (confined_execute fuel s hfalse m).chain.names_eq

/-- A declaration with its value at hand adds its name, even if the value cannot be shown in the
entry. -/
theorem names_declare (name : Token) (v : Option Value) (m : Machine) :
    (left ((declare name v >>= fun _ => pure (none : Option Value)) m)).chain.names =
      m.chain.names.modifyHead ({name.lexeme} ∪ ·) := by
  have hdefine := m.chain.names_define name.lexeme v
  cases v with
  | none => exact hdefine
  | some v => exact hdefine

/-- A declaration adds its name to the innermost scope, unless its initializer stops it. -/
theorem names_execute_declaration (fuel : Nat) (name : Token) (initializer : Option Expr)
    (m : Machine) :
    (left (execute fuel (.declaration name initializer) m)).chain.names =
      m.chain.names.modifyHead (added (.declaration name initializer) m ∪ ·) := by
  cases initializer with
  | none => exact names_declare name (some .nil) m
  | some e =>
    have hconfined : Confined False False (evaluate e) := confined_evaluate e
    have hnames := (hconfined m).chain.names_eq
    cases hres : evaluate e m with
    | ok v mid =>
      rw [hres] at hnames
      rw [execute, bind_eq_of_eq_ok hres, names_declare, added_of_eq_ok hres]
      exact congrArg _ hnames
    | error stop mid =>
      rw [hres] at hnames
      have hstop : execute fuel (.declaration name (some e)) m = .error stop mid :=
        bind_eq_error_iff.2 (.inl hres)
      rw [hstop, added_of_eq_error hres, modifyHead_empty_union]
      exact hnames

/-- A declaration that ends has added its name to the innermost scope. -/
theorem names_of_execute_declaration {fuel : Nat} {name : Token} {initializer : Option Expr}
    {v : Option Value} {m m' : Machine}
    (h : execute fuel (.declaration name initializer) m = .ok v m') :
    m'.chain.names = m.chain.names.modifyHead ({name.lexeme} ∪ ·) := by
  have hnames := names_execute_declaration fuel name initializer m
  rw [h] at hnames
  cases initializer with
  | none => exact hnames
  | some e =>
    obtain ⟨w, mid, hevaluate, -⟩ := bind_eq_ok_iff.1 h
    rwa [added_of_eq_ok hevaluate] at hnames

/-- **A readable statement** leaves every scope the names that it binds, but for the name that a
declaration adds to the innermost one. -/
theorem names_execute {s : Stmt} (h : s.Readable) (fuel : Nat) (m : Machine) :
    (left (execute fuel s m)).chain.names = m.chain.names.modifyHead (added s m ∪ ·) := by
  by_cases hs : ∃ name initializer, s = .declaration name initializer
  · obtain ⟨name, initializer, rfl⟩ := hs
    exact names_execute_declaration fuel name initializer m
  · -- no other readable statement declares a name
    have hother : ∀ name initializer, s ≠ .declaration name initializer := by
      rintro name initializer rfl
      exact hs ⟨name, initializer, rfl⟩
    have hadded : added s m = ∅ := by
      cases s with
      | declaration name initializer => exact absurd rfl (hother name initializer)
      | expression | print | block | branch | loop | misplaced => rfl
    rw [names_execute_of_declares_eq_false (h.declares_eq_false hother), hadded,
      modifyHead_empty_union]

end Run

end Lox
