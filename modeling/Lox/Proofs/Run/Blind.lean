import Lox.Proofs.Run.Lockstep

/-! # Runs look at neither their trace nor their lines

What a run prints, binds and answers depends on the level that its trace is kept at, but not on the
entries that are in it, and not on the lines of the program: on other lines a program does the same,
and where it stops at an error, that error is on its other line.

* **`Machine.Alike`** — two machines that differ in the entries of their traces only;
* **`Run.Mirrors`** — an action that ends as another one does, on other lines and on such machines;
* **`Run.bond_alike`** — being alike is kept by whatever runs;
* **`Run.mirrors_program`** — hence a program mirrors itself on other lines;
* **`Run.blind_program`** — and on its own lines it ends alike on machines that are alike:
  **`Run.exists_program_eq_ok`**, **`Run.exists_program_eq_error`**. -/

namespace Lox

/-- Two machines differ in the entries of their traces only. -/
structure Machine.Alike (m m' : Machine) : Prop where
  chain : m.chain = m'.chain
  output : m.output = m'.output
  level : m.trace.level = m'.trace.level

theorem Machine.Alike.symm {m m' : Machine} (h : m.Alike m') : m'.Alike m :=
  ⟨h.chain.symm, h.output.symm, h.level.symm⟩

theorem Machine.Alike.trans {m m' m'' : Machine} (h : m.Alike m') (h' : m'.Alike m'') :
    m.Alike m'' :=
  ⟨h.chain.trans h'.chain, h.output.trans h'.output, h.level.trans h'.level⟩

/-- Two machines that are alike stay so when both get an entry. -/
theorem Machine.Alike.note {m m' : Machine} (h : m.Alike m') (level : Int)
    (text text' : Unit → String) :
    ({ m with trace := m.trace.note level text } : Machine).Alike
      { m' with trace := m'.trace.note level text' } :=
  ⟨h.chain, h.output, by simpa using h.level⟩

namespace Run

variable {f : Int → Int} {α β : Type}

/-- The second run ends as the first one did, on machines that are alike: with the same answer, or
at the same stop on another line. -/
def EndMoved (f : Int → Int) :
    EStateM.Result Stop Machine α → EStateM.Result Stop Machine α → Prop
  | .ok a m, .ok a' m' => a = a' ∧ m.Alike m'
  | .error stop m, .error stop' m' => stop.moved f = stop' ∧ m.Alike m'
  | _, _ => False

/-- As a run that ended with an answer another one ends with the same answer. -/
theorem EndMoved.eq_ok {a : α} {m : Machine} {r' : EStateM.Result Stop Machine α}
    (h : EndMoved f (.ok a m) r') : ∃ m', r' = .ok a m' ∧ m.Alike m' := by
  cases r' with
  | ok a' m' =>
    obtain ⟨rfl, hm⟩ := h
    exact ⟨m', rfl, hm⟩
  | error => exact h.elim

/-- As a run that stopped another one stops, on another line. -/
theorem EndMoved.eq_error {stop : Stop} {m : Machine} {r' : EStateM.Result Stop Machine α}
    (h : EndMoved f (.error stop m) r') : ∃ m', r' = .error (stop.moved f) m' ∧ m.Alike m' := by
  cases r' with
  | ok => exact h.elim
  | error stop' m' =>
    obtain ⟨rfl, hm⟩ := h
    exact ⟨m', rfl, hm⟩

/-- **An action ends as another one does**, on machines that are alike. -/
def Mirrors (f : Int → Int) (x x' : Run α) : Prop :=
  ∀ m m' : Machine, m.Alike m' → EndMoved f (x m) (x' m')

/-! ## Machines that are alike -/

/-- That they are alike is a bond between machines. -/
theorem bond_alike : Bond Set.univ True Machine.Alike where
  get?_eq h _ _ := by rw [h.chain]
  shown _ _ _ _ _ := .inl trivial
  assign h _ _ _ _ _ _ hc hc' := by
    rw [h.chain, hc'] at hc
    cases hc
    exact ⟨rfl, h.output, h.level⟩
  print h line := ⟨h.chain, congrArg (·.push line) h.output, h.level⟩
  trace h _ _ ht ht' := ⟨h.chain, h.output, ht.trans (h.level.trans ht'.symm)⟩
  level h _ := h.level

/-- Machines that are alike stay so when both define a name. -/
theorem keptByDefining_alike : KeptByDefining Set.univ True Machine.Alike :=
  fun _ _ h x _ v _ => ⟨congrArg (Chain.define x v) h.chain, h.output, h.level⟩

/-- Actions that are in step on machines that are alike mirror each other. -/
theorem InStep.mirrors {P : α → Prop} {x x' : Run α} (h : InStep f Machine.Alike P x x') :
    Mirrors f x x' := by
  intro m m' hm
  rcases (h m m' hm).ok_or_error with
    ⟨a, mid, mid', hres, hres', -, hmid⟩ | ⟨stop, mid, mid', hres, hres', hmid⟩
  · rw [hres, hres']
    exact ⟨rfl, hmid⟩
  · rw [hres, hres']
    exact ⟨rfl, hmid⟩

/-- **Programs are run alike** on other lines, behind whatever value was yielded before. -/
theorem mirrors_foldlM_execute (fuel : Nat) (statements : List Stmt) (v : Option Value) :
    Mirrors f (statements.foldlM (fun _ s => execute fuel s) v)
      ((Stmt.allMoved f statements).foldlM (fun _ s => execute fuel s) v) :=
  (inStep_foldlM_execute fuel bond_alike keptByDefining_alike
    (Stmt.allOver_univ statements) v).mirrors

/-- **Programs are run alike** on other lines. -/
theorem mirrors_program (f : Int → Int) (fuel : Nat) (statements : List Stmt) :
    Mirrors f (program fuel statements) (program fuel (Stmt.allMoved f statements)) :=
  mirrors_foldlM_execute fuel statements none

/-! ## On the same lines -/

/-- Two runs end alike: with the same answer or at the same stop, on machines that are alike. -/
def EndAlike : EStateM.Result Stop Machine α → EStateM.Result Stop Machine α → Prop
  | .ok a m, .ok a' m' => a = a' ∧ m.Alike m'
  | .error stop m, .error stop' m' => stop = stop' ∧ m.Alike m'
  | _, _ => False

/-- On machines that are alike the action ends alike. -/
def Blind (action : Run α) : Prop := ∀ m m' : Machine, m.Alike m' → EndAlike (action m) (action m')

/-- On the same lines a run that ends as another one did ends alike. -/
theorem EndMoved.endAlike {r r' : EStateM.Result Stop Machine α} (h : EndMoved id r r') :
    EndAlike r r' := by
  cases r with
  | ok a m =>
    obtain ⟨m', rfl, hm⟩ := h.eq_ok
    exact ⟨rfl, hm⟩
  | error stop m =>
    obtain ⟨m', rfl, hm⟩ := h.eq_error
    exact ⟨stop.moved_id.symm, hm⟩

/-- **Programs are run alike.** -/
theorem blind_program (fuel : Nat) (statements : List Stmt) : Blind (program fuel statements) := by
  intro m m' h
  have hends := mirrors_program id fuel statements m m' h
  rw [Stmt.allMoved_id] at hends
  exact hends.endAlike

variable {fuel : Nat} {statements : List Stmt} {m m' mid : Machine}

/-- On machines that are alike a program ends with the same answer. -/
theorem exists_program_eq_ok {v : Option Value} (hm : m.Alike m')
    (h : program fuel statements m = .ok v mid) :
    ∃ mid', program fuel statements m' = .ok v mid' ∧ mid.Alike mid' := by
  have hends := mirrors_program id fuel statements m m' hm
  rw [Stmt.allMoved_id, h] at hends
  exact hends.eq_ok

/-- On machines that are alike a program stops at the same stop. -/
theorem exists_program_eq_error {stop : Stop} (hm : m.Alike m')
    (h : program fuel statements m = .error stop mid) :
    ∃ mid', program fuel statements m' = .error stop mid' ∧ mid.Alike mid' := by
  have hends := mirrors_program id fuel statements m m' hm
  rw [Stmt.allMoved_id, h] at hends
  obtain ⟨mid', hres, hmid⟩ := hends.eq_error
  rw [Stop.moved_id] at hres
  exact ⟨mid', hres, hmid⟩

end Run

end Lox
