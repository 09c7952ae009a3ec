import Lox.Command
import Lox.Proofs.Session.Gating

/-! # Exit statuses

The command that runs a script exits with the status that the case of the run asks for: 65 if it was
refused, 70 if it was aborted, and none of its own if it was clean.

* **`RunsScript.invoke_eq_of_run`**, **`RunsScript.invoke_of_run`** — what the command leaves behind
  a run, and how it exits;
* **`errors_gate_execution`** — what a run reports decides what it does, and how the command
  exits. -/

namespace Lox.Command

variable {fuel : Nat} {d : Directory} {o : Options} {arguments : List String}

/-- The trace of a run can be kept: either nothing is traced, or its file can be written. -/
def TraceKept (d : Directory) (o : Options) : Prop :=
  o.verbosity = 0 ∨ traceFailure? d o = none

/-- A script is run in the session that the command starts with. -/
theorem handle_run_eq (hmode : o.mode = .run) (htrace : TraceKept d o) {source : Source}
    {s s' : Session} {result : Option Value} (h : Session.run fuel source s = .ok result s') :
    handle fuel d o source s = .ok none s' := by
  have hhandle : Session.handle fuel o.mode source s = .ok () s' := by
    rw [hmode]
    show (Session.run fuel source >>= fun _ => pure ()) s = _
    rw [bind_eq_ok_iff]
    exact ⟨result, s', h, rfl⟩
  have hrest : (Session.handle fuel o.mode source >>= fun _ =>
      (pure none : Session.Action (Option CommandFailure))) s = .ok none s' := by
    rw [bind_eq_ok_iff]
    exact ⟨(), s', hhandle, rfl⟩
  unfold handle
  -- with no trace to keep, or with a place to write it, the run itself is what is handled
  rcases htrace with hverbosity | hnone
  · rw [if_neg (by simp [hverbosity])]
    exact hrest
  · rw [hnone]
    split
    · exact hrest
    · exact hrest

/-- Where the trace cannot be kept, a script is read and not run. -/
theorem handle_eq_of_traceFailure (hmode : o.mode = .run) (hverbosity : o.verbosity ≠ 0)
    {failure : CommandFailure} (hfailure : traceFailure? d o = some failure) (source : Source)
    (s : Session) : ∃ s', handle fuel d o source s = .ok (some failure) s' := by
  have htraced : o.verbosity ≠ 0 ∧ o.mode ≠ .tokens := ⟨hverbosity, by rw [hmode]; nofun⟩
  unfold handle
  rw [if_pos htraced, hfailure]
  refine ⟨s.afterReading source, ?_⟩
  rw [bind_eq_ok_iff]
  exact ⟨_, _, Session.readProgram_eq source s, rfl⟩

/-- The command and a script: the arguments ask for a run of it, and the directory holds it. -/
structure RunsScript (d : Directory) (arguments : List String) (o : Options)
    (bytes : List UInt8) : Prop where
  arguments_eq : CommandLine.read arguments = .ok o
  mode : o.mode = .run
  script : ∃ path name, o.script = some path ∧
    Place.ofPath d (Place.normalize path) = .entry name ∧ d.contents? name = some bytes

/-- The command leaves behind what handling the script does. -/
theorem RunsScript.invoke_eq {bytes : List UInt8} (h : RunsScript d arguments o bytes)
    (input : String) : invoke fuel d arguments input =
      outcomeOf d o statusOf (handleOrFail fuel d o (Source.ofBytes bytes) (start o)) := by
  obtain ⟨path, name, hscript, hplace, hbytes⟩ := h.script
  unfold invoke
  rw [h.arguments_eq]
  simp only [hscript, runScript, hplace, hbytes]

/-- **The command with a script** leaves behind what the run does, where the trace can be kept. -/
theorem RunsScript.invoke_eq_of_run {bytes : List UInt8} (h : RunsScript d arguments o bytes)
    (htrace : TraceKept d o) (input : String) {s' : Session} {result : Option Value}
    (hrun : Session.run fuel (Source.ofBytes bytes) (Session.new o.verbosity) = .ok result s') :
    invoke fuel d arguments input = outcomeOf d o statusOf (.ok () ((start o).gather s')) := by
  have hhandle : handle fuel d o (Source.ofBytes bytes) (start o).session = .ok none s' :=
    handle_run_eq h.mode htrace hrun
  have hdone : handleOrFail fuel d o (Source.ofBytes bytes) (start o) =
      .ok () ((start o).gather s') := by
    unfold handleOrFail
    rw [bind_eq_ok_iff]
    refine ⟨none, (start o).gather s', ?_, rfl⟩
    simp only [Console.onSession, hhandle]
  rw [h.invoke_eq, hdone]

/-- The command with a script does not break off where the trace can be kept, and exits with the
status that the flags of the run ask for. -/
theorem RunsScript.invoke_of_run {bytes : List UInt8} (h : RunsScript d arguments o bytes)
    (htrace : TraceKept d o) (input : String) {s' : Session} {result : Option Value}
    (hrun : Session.run fuel (Source.ofBytes bytes) (Session.new o.verbosity) = .ok result s') :
    (invoke fuel d arguments input).failure = none ∧
      (invoke fuel d arguments input).status = statusOf s'.ledger := by
  rw [h.invoke_eq_of_run htrace input hrun]
  exact ⟨rfl, rfl⟩

/-- The command with a script breaks off where the trace cannot be kept. -/
theorem RunsScript.invoke_of_traceFailure {bytes : List UInt8}
    (h : RunsScript d arguments o bytes) (hverbosity : o.verbosity ≠ 0) {failure : CommandFailure}
    (hfailure : traceFailure? d o = some failure) (input : String) :
    (invoke fuel d arguments input).failure = some failure ∧
      (invoke fuel d arguments input).status = none := by
  obtain ⟨s', hhandle⟩ : ∃ s', handle fuel d o (Source.ofBytes bytes) (start o).session =
      .ok (some failure) s' := handle_eq_of_traceFailure h.mode hverbosity hfailure _ _
  have hfailed : handleOrFail fuel d o (Source.ofBytes bytes) (start o) =
      .error failure ((start o).gather s') := by
    unfold handleOrFail
    rw [bind_eq_error_iff]
    refine .inr ⟨some failure, (start o).gather s', ?_, rfl⟩
    simp only [Console.onSession, hhandle]
  rw [h.invoke_eq, hfailed]
  exact ⟨rfl, rfl⟩

/-- **Errors gate execution.** A run returns unless its rounds are used up, and a run that returns
is in exactly one of three cases. It is refused, clean or aborted, and a command that runs a script
exits with the status 65, none of its own, or the status 70 accordingly; where a trace is asked for
that cannot be kept, it breaks off without a status. -/
theorem errors_gate_execution (fuel : Nat) :
    (∀ (source : Source) (s : Session),
      (s.machine.chain.Valued →
        (∃ s', Session.run fuel source s = .error .exhausted s') ∨
          ∃ result s', Session.run fuel source s = .ok result s') ∧
      ∀ result s', Session.run fuel source s = .ok result s' →
        (s.Refused source result s' ∧ ¬ s.Clean fuel source result s' ∧
            ¬ s.Aborted fuel source result s') ∨
          (¬ s.Refused source result s' ∧ s.Clean fuel source result s' ∧
            ¬ s.Aborted fuel source result s') ∨
          (¬ s.Refused source result s' ∧ ¬ s.Clean fuel source result s' ∧
            s.Aborted fuel source result s')) ∧
    ∀ (d : Directory) (arguments : List String) (o : Options) (bytes : List UInt8),
      RunsScript d arguments o bytes → ∀ input : String,
        (∀ failure, o.verbosity ≠ 0 → traceFailure? d o = some failure →
          (invoke fuel d arguments input).failure = some failure ∧
            (invoke fuel d arguments input).status = none) ∧
        (TraceKept d o → ∀ (result : Option Value) (s' : Session),
          Session.run fuel (Source.ofBytes bytes) (Session.new o.verbosity) = .ok result s' →
            (invoke fuel d arguments input).failure = none ∧
            ((Session.new o.verbosity).Refused (Source.ofBytes bytes) result s' →
              (invoke fuel d arguments input).status = some 65) ∧
            ((Session.new o.verbosity).Clean fuel (Source.ofBytes bytes) result s' →
              (invoke fuel d arguments input).status = none) ∧
            ((Session.new o.verbosity).Aborted fuel (Source.ofBytes bytes) result s' →
              (invoke fuel d arguments input).status = some 70)) := by
  constructor
  · intro source s
    exact ⟨Session.run_returns_or_exhausts, fun _ _ => Session.exactly_one_of_run⟩
  · intro d arguments o bytes hscript input
    refine ⟨fun failure hverbosity hfailure =>
      hscript.invoke_of_traceFailure hverbosity hfailure input, ?_⟩
    intro htrace result s' hrun
    obtain ⟨hfailure, hstatus⟩ := hscript.invoke_of_run htrace input hrun
    refine ⟨hfailure, fun hrefused => ?_, fun hclean => ?_, fun haborted => ?_⟩
    · -- the flags are what the case says, and the status follows from them
      rw [hstatus, statusOf, if_pos hrefused.hadError]
      rfl
    · rw [hstatus, hclean.ledger]
      rfl
    · obtain ⟨_, _, _, _, _, _, -, -, -, -, -, -, hruntime, herror, -⟩ := haborted.failed
      rw [hstatus, statusOf, herror, hruntime]
      rfl

/-- A script that prints a name that nothing binds is aborted, and the command exits with the
status 70. -/
theorem errors_gate_execution_of_unbound_name :
    let d : Directory := { files := [("a", "print a;".toUTF8.toList)] }
    let source := Source.ofBytes "print a;".toUTF8.toList
    (∃ result s', (Session.new 0).Aborted 1 source result s') ∧
      (invoke 1 d ["a"] "").status = some 70 := by
  intro d source
  have hscript : RunsScript d ["a"] { script := some "a" } "print a;".toUTF8.toList :=
    ⟨rfl, rfl, ⟨"a", "a", rfl, by decide +kernel, rfl⟩⟩
  have hvalued : (Session.new 0).machine.chain.Valued :=
    Chain.valued_global.2 Bindings.valued_empty
  have hflag : (match Session.run 1 source (Session.new 0) with
      | .ok _ s' => s'.ledger.hadRuntimeError
      | .error _ _ => false) = true := by decide +kernel
  obtain ⟨hcases, hcommand⟩ := errors_gate_execution 1
  obtain ⟨hreturns, hone⟩ := hcases source (Session.new 0)
  rcases hreturns hvalued with ⟨s', hrun⟩ | ⟨result, s', hrun⟩
  · rw [hrun] at hflag
    cases hflag
  · simp only [hrun] at hflag
    obtain ⟨-, hkept⟩ := hcommand d ["a"] _ _ hscript ""
    obtain ⟨-, -, -, hstatus⟩ := hkept (.inl rfl) result s' hrun
    rcases hone result s' hrun with ⟨hrefused, -⟩ | ⟨-, hclean, -⟩ | ⟨-, -, haborted⟩
    · rw [hrefused.hadRuntimeError] at hflag
      cases hflag
    · rw [hclean.ledger] at hflag
      cases hflag
    · exact ⟨⟨result, s', haborted⟩, hstatus haborted⟩

end Lox.Command
