import Lox.Proofs.Run.Tracing
import Lox.Proofs.Session.Together

/-! # Tracing a session

A session does the same with a program whatever level its trace is kept at, and a higher level only
adds entries to the trace.

* **`Session.retraced`** — a session that goes on with another trace;
* **`Session.Traced`**, **`Session.EndTraced`** — sessions that differ in traces of two levels, and
  runs that end in the same way in such sessions;
* **`Session.Reachable.traced_in_layers`** — what a reachable session does, traced at two levels. -/

namespace Lox.Session

variable {α : Type} {t t' : Trace} {s s' : Session}

/-- A session that goes on with another trace. -/
def retraced (t : Trace) (s : Session) : Session :=
  { s with machine := { s.machine with trace := t } }

/-- **Two sessions that are traced at two levels**: scopes, output, ledger and listing are the same,
and the traces have grown in layers since they were `t` and `t'`. -/
structure Traced (t t' : Trace) (s s' : Session) : Prop where
  chain : s.machine.chain = s'.machine.chain
  output : s.machine.output = s'.machine.output
  ledger : s.ledger = s'.ledger
  listing : s.listing = s'.listing
  trace : Trace.Layered t t' s.machine.trace s'.machine.trace

/-- **Two runs that are traced at two levels** ended in the same way: both answered the same, or
both stopped at the same stop. -/
def EndTraced (t t' : Trace) (r r' : EStateM.Result Stop Session α) : Prop :=
  EndTogether (Traced t t') (fun _ => True) r r'

/-- Being traced at two levels lasts in sessions. -/
theorem steady_traced (hle : t.level ≤ t'.level) : Steady (Machine.Traced t t') where
  note level text := Run.transparent_note hle level text
  program fuel _ _ hdrawn := Run.transparent_program hle fuel hdrawn

/-- The machines of a session whose names are bound to values, traced at two levels. -/
theorem traced_retraced (hs : s.machine.chain.Valued) (t t' : Trace) :
    Machine.Traced t t' (s.retraced t).machine (s.retraced t').machine :=
  ⟨rfl, rfl, hs, .refl t t'⟩

/-- Actions that ended together in sessions with different traces are traced at two levels. -/
theorem EndTogether.endTraced {r r' : EStateM.Result Stop Session α}
    (h : EndTogether (Beside (Machine.Traced t t') (s.retraced t) (s.retraced t'))
      (fun _ => True) r r') : EndTraced t t' r r' :=
  h.mono fun _ _ hs =>
    ⟨hs.machine.chain, hs.machine.output, hs.ledger.eq, hs.listing.eq, hs.machine.trace⟩

/-- A trace of a level that is not above zero gets no entry. -/
theorem Traced.trace_eq (h : Traced t t' s s') (hlevel : t.level ≤ 0) : s.machine.trace = t := by
  obtain ⟨hsame, -, log, hlog, hentries, -⟩ := h.trace
  -- every entry of the log is above zero, so the level keeps none of them
  have hnone : log.filter (·.level ≤ t.level) = [] := by
    rw [List.filter_eq_nil_iff]
    intro e he
    have habove := (hlog e he).1
    simp only [decide_eq_true_eq]
    omega
  rw [hnone, Array.append_empty] at hentries
  generalize s.machine.trace = now at hsame hentries
  obtain ⟨level, entries⟩ := now
  obtain rfl : level = t.level := hsame
  obtain rfl : entries = t.entries := hentries
  rfl

/-- **Tracing is invisible and layered.** In a reachable session whose trace is kept at one level or
at a higher one, running a source prints, binds, reports and answers the same, and stops at the same
stop if it stops; and so does handling a line, in any mode. The trace of the lower level gets the
entries of the other one that are of this level or below, in order, and if its level is not above
zero it gets none. -/
theorem Reachable.traced_in_layers (h : Reachable s) (hle : t.level ≤ t'.level) (fuel : Nat) :
    (∀ source, EndTraced t t' (Session.run fuel source (s.retraced t))
      (Session.run fuel source (s.retraced t'))) ∧
    (∀ mode line, EndTraced t t' (Session.enterLine fuel mode line (s.retraced t))
      (Session.enterLine fuel mode line (s.retraced t'))) ∧
    (t.level ≤ 0 → (∀ source, (left (Session.run fuel source (s.retraced t))).machine.trace = t) ∧
      ∀ mode line, (left (Session.enterLine fuel mode line (s.retraced t))).machine.trace = t) := by
  have hsteady := steady_traced hle
  have hmachine := traced_retraced h.valued t t'
  have hbeside : Beside (Machine.Traced t t') (s.retraced t) (s.retraced t') (s.retraced t)
      (s.retraced t') := ⟨hmachine, .refl s.ledger, .refl s.listing s.listing⟩
  have hrun : ∀ source, EndTraced t t' (Session.run fuel source (s.retraced t))
      (Session.run fuel source (s.retraced t')) :=
    fun source => (together_run hsteady fuel source _ _ hbeside).endTraced
  have hline : ∀ mode line, EndTraced t t' (Session.enterLine fuel mode line (s.retraced t))
      (Session.enterLine fuel mode line (s.retraced t')) :=
    fun mode line => (endTogether_enterLine hsteady hmachine fuel mode line).endTraced
  exact ⟨hrun, hline, fun hlevel =>
    ⟨fun source => (hrun source).stop?_eq.2.trace_eq hlevel,
      fun mode line => (hline mode line).stop?_eq.2.trace_eq hlevel⟩⟩

/-- A fresh session that prints a value, traced at the level of phases and at that of
expressions. -/
theorem traced_in_layers_of_fresh :
    Reachable (new 0) ∧ Trace.level { level := 1 } ≤ Trace.level { level := 4 } ∧
      EndTraced { level := 1 } { level := 4 }
        (run 1 "print nil;".toList ((new 0).retraced { level := 1 }))
        (run 1 "print nil;".toList ((new 0).retraced { level := 4 })) := by
  have hfresh : Reachable (new 0) := .fresh rfl
  have hle : Trace.level { level := 1 } ≤ Trace.level { level := 4 } := by decide
  exact ⟨hfresh, hle, (hfresh.traced_in_layers hle 1).1 _⟩

end Lox.Session
