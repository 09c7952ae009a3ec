import Lox.Report
import Lox.Scope.Chain
import Lox.Trace
import Lox.Tree

/-! # The state of a run

A `Machine` holds what running a program changes: the chain of scopes, the lines printed, and the
trace. A `Run` acts on it and either ends with a result or stops: at a runtime error, at a fault of
a tree assembled by hand, or because the rounds granted to its loops are used up. The machine keeps
everything done before a stop. -/

namespace Lox

/-- The scopes in force, the lines printed so far, and the trace. -/
structure Machine where
  chain : Chain := .empty
  output : Array String := #[]
  trace : Trace := {}

/-- Why a run stops before its end. -/
inductive Stop
  /-- An operation that its operands do not allow, or an unknown name. -/
  | error (e : RuntimeError)
  /-- A tree that cannot be run. -/
  | fault (f : Fault)
  /-- A loop went on for more rounds than were granted. -/
  | exhausted

/-- An action on a machine. -/
abbrev Run := EStateM Stop Machine

namespace Run

/-- Stops at a token, for a reason. -/
def abort {α : Type} (token : Token) (kind : RuntimeErrorKind) : Run α :=
  throw (.error ⟨token, kind⟩)

/-- Stops at something no program text leads to. -/
def fail {α : Type} (f : Fault) : Run α := throw (.fault f)

/-- Adds a trace entry of a level. -/
def note (level : Int) (text : Unit → String) : Run Unit :=
  modify fun m => { m with trace := m.trace.note level text }

/-- Prints a line. -/
def print (line : String) : Run Unit :=
  modify fun m => { m with output := m.output.push line }

/-- The text of what an expression yielded. -/
def shown (yielded : Option Value) : Run String :=
  match yielded with
  | none => fail .missingValue
  | some v => pure v.text

/-- What the name of a token is bound to. -/
def lookup (name : Token) : Run (Option Value) := fun m =>
  match m.chain.get? name.lexeme with
  | some value => .ok value m
  | none => abort name .undefinedVariable m

/-- Binds the name of a token in the innermost scope. -/
def define (name : Token) (value : Option Value) : Run Unit :=
  modify fun m => { m with chain := m.chain.define name.lexeme value }

/-- Changes what the name of a token is bound to. -/
def assign (name : Token) (value : Option Value) : Run Unit := fun m =>
  match m.chain.assign? name.lexeme value with
  | some chain => .ok () { m with chain := chain }
  | none => abort name .undefinedVariable m

/-- How many scopes enclose the innermost one. -/
def depth : Run Nat := do return (← get).chain.depth

/-- Adds a trace entry that shows a value; a missing value cannot be shown, with or without a
trace. -/
def noteValue (level : Int) (yielded : Option Value) (text : String → String) : Run Unit :=
  match yielded with
  | none => fail .missingValue
  | some v => note level fun _ => text v.text

/-- Runs an action in a scope of its own, which is closed however the action ends. -/
def inScope {α : Type} (body : Run α) : Run α := fun m =>
  let inner := { m with chain := m.chain.enter }
  let depth := inner.chain.depth
  let entered := { inner with
    trace := inner.trace.note 3 fun _ => "enter block (depth " ++ toString depth ++ ")" }
  let close := fun (m : Machine) => { m with
    chain := m.chain.leave
    trace := m.trace.note 3 fun _ => "exit block (depth " ++ toString depth ++ ")" }
  match body entered with
  | .ok a m => .ok a (close m)
  | .error stop m => .error stop (close m)

/-- Repeats a body as long as a test holds, for at most `fuel` tests, and answers how many rounds
were made after the first `count`. -/
def repeatWhile (test : Run Bool) (body : Run Unit) : (fuel count : Nat) → Run Nat
  | 0, _ => throw .exhausted
  | fuel + 1, count => do
    if ← test then
      body
      repeatWhile test body fuel (count + 1)
    else return count

end Run

end Lox
