import Lox.Proofs.Run.Lockstep

/-! # Runs depend on the names that they mention

A program looks at nothing of the scopes but at what the names are bound to that it mentions. Run on
machines that agree on these names it prints the same lines and ends in the same way, wherever the
bindings are: one run may bind anew what hides an outer binding in the other one, and an assignment
may be made to scopes at different depths. Behind the runs the machines agree on the names again.

* **`Machine.AgreeOn`** — two machines look the same under the names of a set;
* **`Machine.Parallel`** — what two runs keep in common with the machines that they started on;
* **`Run.EndAgreed`** — two runs end in the same way;
* **`Run.runs_agree`** — statements run like that where the machines agree on their names. -/

namespace Lox

namespace Machine

/-- The names of the set are bound to the same on both machines, or on none of them. -/
def AgreeOn (names : Set String) (m m' : Machine) : Prop :=
  ∀ x ∈ names, m.chain.get? x = m'.chain.get? x

/-- Behind two runs the machines agree on the names, and the same lines were printed to both. -/
structure Agreed (names : Set String) (start start' m m' : Machine) : Prop where
  agreeOn : m.AgreeOn names m'
  output_eq : ∃ lines, m.output = start.output ++ lines ∧ m'.output = start'.output ++ lines

/-- **Two runs are parallel**: they agree on the names and have printed the same, the traces are
kept at the levels from the start, and what the names are bound to can be shown in both traces. -/
structure Parallel (names : Set String) (start start' m m' : Machine) : Prop
    extends Agreed names start start' m m' where
  shown : ∀ x ∈ names, ∀ v, m.chain.get? x = some v →
    Shown (start.trace.level = start'.trace.level) v
  level_eq : m.trace.level = start.trace.level
  level_eq' : m'.trace.level = start'.trace.level

end Machine

namespace Run

variable {names : Set String} {start start' : Machine}

/-- That two runs are parallel is kept by whatever they do. -/
theorem bond_parallel :
    Bond names (start.trace.level = start'.trace.level) (Machine.Parallel names start start') where
  get?_eq h x hx := h.agreeOn x hx
  shown h x hx v hv := h.shown x hx v hv
  assign := by
    intro m m' h x hx v hv c c' hc hc'
    refine ⟨⟨fun y hy => ?_, h.output_eq⟩, fun y hy w hw => ?_, h.level_eq, h.level_eq'⟩
    · rw [Chain.get?_of_assign? hc, Chain.get?_of_assign? hc', h.agreeOn y hy]
    · change c.get? y = some w at hw
      rw [Chain.get?_of_assign? hc] at hw
      split at hw
      · cases hw
        exact hv
      · exact h.shown y hy w hw
  print := by
    intro m m' h line
    obtain ⟨lines, hm, hm'⟩ := h.output_eq
    refine ⟨⟨h.agreeOn, lines.push line, ?_, ?_⟩, h.shown, h.level_eq, h.level_eq'⟩
    · simp [hm]
    · simp [hm']
  trace := by
    intro m m' h t t' ht ht'
    exact ⟨⟨h.agreeOn, h.output_eq⟩, h.shown, ht.trans h.level_eq, ht'.trans h.level_eq'⟩
  level := by
    intro m m' h hsame
    rw [h.level_eq, h.level_eq', hsame]

/-- Two runs stay parallel when both define a name. -/
theorem keptByDefining_parallel :
    KeptByDefining names (start.trace.level = start'.trace.level)
      (Machine.Parallel names start start') := by
  intro m m' h x hx v hv
  refine ⟨⟨fun y hy => ?_, h.output_eq⟩, fun y hy w hw => ?_, h.level_eq, h.level_eq'⟩
  · rw [Chain.get?_define, Chain.get?_define, h.agreeOn y hy]
  · change (m.chain.define x v).get? y = some w at hw
    rw [Chain.get?_define] at hw
    split at hw
    · cases hw
      exact hv
    · exact h.shown y hy w hw

/-! ## How two runs end -/

variable {α : Type}

/-- **Two runs end in the same way**: with the same answer or at the same stop, having printed the
same lines, and with machines that agree on the names again. -/
def EndAgreed (names : Set String) (start start' : Machine) :
    EStateM.Result Stop Machine α → EStateM.Result Stop Machine α → Prop
  | .ok a m, .ok a' m' => a = a' ∧ Machine.Agreed names start start' m m'
  | .error stop m, .error stop' m' => stop = stop' ∧ Machine.Agreed names start start' m m'
  | _, _ => False

/-- Actions that are in step end in the same way on parallel machines. -/
theorem InStep.endAgreed {P : α → Prop} {x x' : Run α}
    (h : InStep id (Machine.Parallel names start start') P x x')
    (hstart : Machine.Parallel names start start' start start') :
    EndAgreed names start start' (x start) (x' start') := by
  rcases (h start start' hstart).ok_or_error with
    ⟨a, m, m', hres, hres', -, hm⟩ | ⟨stop, m, m', hres, hres', hm⟩
  · rw [hres, hres']
    exact ⟨rfl, hm.toAgreed⟩
  · rw [hres, hres']
    exact ⟨stop.moved_id.symm, hm.toAgreed⟩

/-- Two runs that end in the same way have both used up their rounds, or none of them has. -/
theorem EndAgreed.exhausted_iff {r r' : EStateM.Result Stop Machine α}
    (h : EndAgreed names start start' r r') :
    (∃ m, r = .error .exhausted m) ↔ ∃ m, r' = .error .exhausted m := by
  cases r with
  | ok a m =>
    cases r' with
    | ok a' m' => simp
    | error stop' m' => exact h.elim
  | error stop m =>
    cases r' with
    | ok a' m' => exact h.elim
    | error stop' m' =>
      obtain ⟨rfl, -⟩ := h
      simp

/-- The run of statements ends, if its loops are granted enough rounds. -/
def Halts (statements : List Stmt) (m : Machine) : Prop :=
  ∃ fuel, ¬∃ m', program fuel statements m = .error .exhausted m'

/-- Statements that are read from tokens with their literals are drawn from these. -/
theorem allDrawn_of_readAs {ts : List Token} {statements : List Stmt}
    (h : Grammar.ReadAs ts statements) (hts : Surface.HaveLiterals ts) :
    Stmt.AllDrawn ts statements := by
  obtain ⟨p, rest, rfl, rfl, -⟩ := Grammar.readAs_iff.1 h
  exact Surface.drawn_desugarAll hts p.declarations (List.subset_append_left _ _)

/-- **Runs depend on the names that they mention.** Where two machines agree on the names that the
statements mention, the statements end in one run iff they end in the other one. Both runs print the
same lines, and they yield the same or stop at the same stop, as a program and statement by
statement; behind them the machines agree on these names again. If the traces are kept at different
levels, this is so for statements that are read from tokens with their literals, where the names are
bound to values. -/
theorem runs_agree {statements : List Stmt} {m m' : Machine}
    (hagree : m.AgreeOn (Stmt.allNames statements) m')
    (hshown : m.trace.level = m'.trace.level ∨
      (∃ ts, Grammar.ReadAs ts statements ∧ Surface.HaveLiterals ts) ∧
        ∀ x ∈ Stmt.allNames statements, ∀ v, m.chain.get? x = some v → v.isSome = true) :
    (Halts statements m ↔ Halts statements m') ∧ ∀ fuel,
      EndAgreed (Stmt.allNames statements) m m' (program fuel statements m)
          (program fuel statements m') ∧
        EndAgreed (Stmt.allNames statements) m m' (statements.mapM (execute fuel) m)
          (statements.mapM (execute fuel) m') := by
  have hover : Stmt.AllOver (Stmt.allNames statements) (m.trace.level = m'.trace.level)
      statements := by
    rcases hshown with hsame | ⟨⟨ts, hread, hts⟩, -⟩
    · have hdrawn : _ ∨ Stmt.AllDrawn [] statements := .inl hsame
      exact Stmt.allOver statements (Set.Subset.refl _) hdrawn
    · exact Stmt.allOver statements (Set.Subset.refl _) (.inr (allDrawn_of_readAs hread hts))
  have hstart : Machine.Parallel (Stmt.allNames statements) m m' m m' := by
    refine ⟨⟨hagree, #[], by simp, by simp⟩, fun x hx v hv => ?_, rfl, rfl⟩
    exact hshown.imp_right fun h => h.2 x hx v hv
  have hends : ∀ fuel, EndAgreed (Stmt.allNames statements) m m' (program fuel statements m)
      (program fuel statements m') := fun fuel =>
    (inStep_program_self fuel bond_parallel keptByDefining_parallel hover).endAgreed hstart
  refine ⟨exists_congr fun fuel => not_congr (hends fuel).exhausted_iff, fun fuel => ?_⟩
  have hstep := inStep_mapM_execute_self fuel bond_parallel keptByDefining_parallel hover
  exact ⟨hends fuel, hstep.endAgreed hstart⟩

/-- A declaration on two machines that bind its name, one in the scope in force and the other one in
the scope around it: the one binds it anew, and the other one hides it. Their traces are kept at
different levels. -/
theorem runs_agree_of_declaration :
    EndAgreed (Stmt.allNames [.declaration ⟨.identifier, "a", none, 1⟩ none])
      { chain := .define "a" (some (.boolean true)) .empty }
      { chain := .enter (.define "a" (some (.boolean true)) .empty), trace := { level := 4 } }
      (program 0 [.declaration ⟨.identifier, "a", none, 1⟩ none]
        { chain := .define "a" (some (.boolean true)) .empty })
      (program 0 [.declaration ⟨.identifier, "a", none, 1⟩ none]
        { chain := .enter (.define "a" (some (.boolean true)) .empty),
          trace := { level := 4 } }) := by
  have hread := Grammar.readAs_declaration (.ofKind (t := ⟨.keyword .varWord, "var", none, 1⟩) rfl)
    (.ofKind (t := ⟨.identifier, "a", none, 1⟩) rfl) (.ofKind (t := ⟨.semicolon, ";", none, 1⟩) rfl)
    (.ofKind (t := ⟨.endOfInput, "", none, 1⟩) rfl)
  refine ((runs_agree ?_ (.inr ⟨⟨_, hread, ?_⟩, ?_⟩)).2 0).1
  · exact fun _ _ => rfl
  · -- there is no number and no string among the tokens
    unfold Surface.HaveLiterals
    decide
  · intro x hx v hv
    rw [Chain.get?_define] at hv
    split at hv
    · cases hv
      rfl
    · cases hv

end Run

end Lox
