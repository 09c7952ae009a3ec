import Lox.Proofs.Run.Blind
import Lox.Proofs.Session.Reading

/-! # Runs of a session that end as each other

Programs on other lines print, bind and answer the same in a session, and the only report there may
be, that of a runtime error, names another line.

* **`Ledger.Aborts`** — ledgers behind the same runtime error on other lines, or behind none;
* **`Session.EndAs`** — two runs that end as each other;
* **`Session.exists_program_of_runStatements`** — how statements end that return;
* **`Session.runStatements_endAs`** — statements that a machine runs alike on other lines do so in a
  session;
* **`Session.EndAs.join`** — two runs that both end as a third one. -/

namespace Lox

/-- Two ledgers are what a ledger becomes when nothing is reported, or a runtime error that the
second one names on another line. -/
def Ledger.Aborts (f : Int → Int) (start l l' : Ledger) : Prop :=
  (l = start ∧ l' = start) ∨
    ∃ e : RuntimeError, l = start.aborted e ∧ l' = start.aborted (e.moved f)

namespace Session

/-- **Two runs end as each other.** They print and bind the same, and both answer, or both stop for
the same reason; what they answer is related by `A`, and the ledgers left behind by `L`. -/
def EndAs (A : Option Value → Option Value → Prop) (L : Ledger → Ledger → Prop) :
    EStateM.Result Stop Session (Option Value) → EStateM.Result Stop Session (Option Value) → Prop
  | .ok v s, .ok v' s' => A v v' ∧ L s.ledger s'.ledger ∧ s.machine.Alike s'.machine
  | .error stop s, .error stop' s' =>
    stop = stop' ∧ L s.ledger s'.ledger ∧ s.machine.Alike s'.machine
  | _, _ => False

variable {f : Int → Int} {fuel : Nat} {A : Option Value → Option Value → Prop}
  {L L' : Ledger → Ledger → Prop}
  {r r' r'' : EStateM.Result Stop Session (Option Value)}

variable {statements : List Stmt} {s s' : Session} {m : Machine} {v : Option Value}

/-- Statements that end leave the ledger as it is. -/
theorem exists_runStatements_of_eq_ok (h : Run.program fuel statements s.machine = .ok v m) :
    ∃ s', runStatements fuel statements s = .ok v s' ∧ s'.ledger = s.ledger ∧
      s'.machine.Alike m := by
  unfold runStatements
  rw [h]
  exact ⟨_, rfl, rfl, rfl, rfl, Trace.level_note _ _ _⟩

/-- Statements that stop at a runtime error report it. -/
theorem exists_runStatements_of_eq_error {e : RuntimeError}
    (h : Run.program fuel statements s.machine = .error (.error e) m) :
    ∃ s', runStatements fuel statements s = .ok none s' ∧ s'.ledger = s.ledger.aborted e ∧
      s'.machine.Alike m := by
  unfold runStatements
  rw [h]
  exact ⟨_, rfl, rfl, rfl, rfl, Trace.level_note _ _ _⟩

/-- **Where statements return**, they have ended, or stopped at a runtime error. -/
theorem exists_program_of_runStatements (h : runStatements fuel statements s = .ok v s') :
    (∃ m, Run.program fuel statements s.machine = .ok v m ∧ s'.ledger = s.ledger ∧
        s'.machine.Alike m) ∨
      ∃ e m, Run.program fuel statements s.machine = .error (.error e) m ∧ v = none ∧
        s'.ledger = s.ledger.aborted e ∧ s'.machine.Alike m := by
  cases hprogram : Run.program fuel statements s.machine with
  | ok w m =>
    obtain ⟨s'', hreturns, hsame⟩ := exists_runStatements_of_eq_ok hprogram
    rw [h] at hreturns
    cases hreturns
    exact .inl ⟨m, rfl, hsame⟩
  | error stop m =>
    cases stop with
    | error e =>
      obtain ⟨s'', hreturns, hsame⟩ := exists_runStatements_of_eq_error hprogram
      rw [h] at hreturns
      cases hreturns
      exact .inr ⟨e, m, rfl, rfl, hsame⟩
    | fault reason =>
      unfold runStatements at h
      rw [hprogram] at h
      cases h
    | exhausted =>
      unfold runStatements at h
      rw [hprogram] at h
      cases h

/-- Reading changes nothing but the trace of a machine. -/
theorem alike_of_afterReading (s : Session) (source : Source) :
    (s.afterReading source).machine.Alike s.machine :=
  ⟨by simp, by simp, by simp⟩

/-- **Statements that a machine runs alike on other lines** are run alike in a session, whose
runtime error is on its other line. -/
theorem runStatements_endAs {statements' : List Stmt}
    (h : Run.EndMoved f (Run.program fuel statements s.machine)
      (Run.program fuel statements' s'.machine)) (hledger : s'.ledger = s.ledger) :
    EndAs Eq (s.ledger.Aborts f) (runStatements fuel statements s)
      (runStatements fuel statements' s') := by
  unfold runStatements
  cases hres : Run.program fuel statements s.machine with
  | ok v m =>
    rw [hres] at h
    obtain ⟨m', hres', hm⟩ := h.eq_ok
    rw [hres']
    exact ⟨rfl, .inl ⟨rfl, hledger⟩, hm.note _ _ _⟩
  | error stop m =>
    rw [hres] at h
    obtain ⟨m', hres', hm⟩ := h.eq_error
    rw [hres']
    cases stop with
    | error e =>
      refine ⟨rfl, .inr ⟨e, rfl, ?_⟩, hm.note _ _ _⟩
      show s'.ledger.aborted _ = _
      rw [hledger]
    | fault reason => exact ⟨rfl, .inl ⟨rfl, hledger⟩, hm⟩
    | exhausted => exact ⟨rfl, .inl ⟨rfl, hledger⟩, hm⟩

/-- As a run that returned another one returns. -/
theorem EndAs.eq_ok (h : EndAs A L (.ok v s) r') :
    ∃ v' s', r' = .ok v' s' ∧ A v v' ∧ L s.ledger s'.ledger ∧ s.machine.Alike s'.machine := by
  cases r' with
  | ok v' s' => exact ⟨v', s', rfl, h⟩
  | error => exact h.elim

/-- As a run that stopped another one stops. -/
theorem EndAs.eq_error {stop : Stop} (h : EndAs A L (.error stop s) r') :
    ∃ s', r' = .error stop s' ∧ L s.ledger s'.ledger ∧ s.machine.Alike s'.machine := by
  cases r' with
  | ok => exact h.elim
  | error stop' s' =>
    obtain ⟨rfl, hsame⟩ := h
    exact ⟨s', rfl, hsame⟩

/-- Less may be asked of the answers of two runs that end as each other. -/
theorem EndAs.mono {A' : Option Value → Option Value → Prop} (h : EndAs A L r r')
    (hA : ∀ v v', A v v' → A' v v') : EndAs A' L r r' := by
  cases r with
  | ok v s =>
    obtain ⟨v', s', rfl, hv, hsame⟩ := h.eq_ok
    exact ⟨hA _ _ hv, hsame⟩
  | error stop s =>
    obtain ⟨s', rfl, hsame⟩ := h.eq_error
    exact ⟨rfl, hsame⟩

/-- **Two runs that both end as a third one** end as each other. -/
theorem EndAs.join (h : EndAs Eq L r r'') (h' : EndAs Eq L r' r'')
    (hL : ∀ l l' l'', L l l'' → L l' l'' → L' l l') : EndAs Eq L' r r' := by
  cases r with
  | ok v s =>
    obtain ⟨v'', s'', rfl, rfl, hl, hm⟩ := h.eq_ok
    cases r' with
    | ok v' s' => exact ⟨h'.1.symm, hL _ _ _ hl h'.2.1, hm.trans h'.2.2.symm⟩
    | error => exact h'.elim
  | error stop s =>
    obtain ⟨s'', rfl, hl, hm⟩ := h.eq_error
    cases r' with
    | ok => exact h'.elim
    | error stop' s' => exact ⟨h'.1.symm, hL _ _ _ hl h'.2.1, hm.trans h'.2.2.symm⟩

end Session

end Lox
