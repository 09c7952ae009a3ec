import Lox.Grammar.Cursor
import Lox.Run.Execute
import Lox.Source.Scan
import Lox.Tree.Printed

/-! # Sessions

A session runs programs one after the other and keeps the global scope between them. A program with
a lexical or syntax error is not run; a runtime error stops the program it happens in. The flag of
an earlier error refuses every later program until it is taken back, which handling a line of input
does first.

* **`Session.readProgram`** — scans and reads a program;
* **`Session.runStatements`** — executes statements, and reports the runtime error that stops them;
* **`Session.run`** — both;
* **`Session.handle`** — runs a program, or lists its tokens or statements instead;
* **`Session.enterLine`** — handles a line of input with a fresh ledger. -/

namespace Lox

/-- The machine and the ledger that programs are run with, and the lines of listings written. -/
structure Session where
  machine : Machine := {}
  ledger : Ledger := {}
  listing : Array String := #[]

/-- What is done with a program: run it, list its tokens, or list its statements. -/
inductive Mode
  | run
  | tokens
  | tree
deriving DecidableEq, Repr

namespace Session

/-- A session whose trace is kept at a level. -/
def new (level : Int) : Session := { machine := { trace := { level := level } } }

/-- An action of a session. Only what no program text leads to stops it, and loops that go on for
more rounds than granted. -/
abbrev Action := EStateM Stop Session

/-! ## Parts of a session -/

/-- Acts on the machine. -/
def onMachine {α : Type} (action : Run α) : Action α := fun s =>
  match action s.machine with
  | .ok a m => .ok a { s with machine := m }
  | .error stop m => .error stop { s with machine := m }

/-- Acts on a list of tokens, with the session's ledger. -/
def onTokens {α : Type} (tokens : List Token) (step : Cursor.Step α) : Action α := fun s =>
  match step { tokens := tokens, ledger := s.ledger } with
  | .ok a c => .ok a { s with ledger := c.ledger }
  | .error f c => .error (.fault f) { s with ledger := c.ledger }

/-- Changes the ledger. -/
def onLedger (change : Ledger → Ledger) : Action Unit :=
  modify fun s => { s with ledger := change s.ledger }

/-- Adds a line to the listing. -/
def list (line : String) : Action Unit :=
  modify fun s => { s with listing := s.listing.push line }

/-! ## Reading -/

/-- The tokens of a source; its lexical errors are reported. -/
def readTokens (source : Source) : Action (List Token) := do
  let found := scan source
  onLedger fun l => found.errors.foldl (fun l e => l.lexical e) l
  return found.tokens.toList

/-- The number of statements in a trace entry. -/
def countText (statements : Option (List Stmt)) : String :=
  match statements with
  | none => "no"
  | some ss => toString ss.length

/-- **Scans and reads a program.** There is no result after an error, be it of an earlier
program. -/
def readProgram (source : Source) : Action (Option (List Stmt)) := do
  let tokens ← readTokens source
  let statements ← onTokens tokens Cursor.readProgram
  onMachine (Run.note 1 fun _ =>
    "scanned " ++ toString tokens.length ++ " tokens, parsed " ++ countText statements
      ++ " statements")
  return if (← get).ledger.hadError then none else statements

/-! ## Running -/

/-- **Executes statements** and answers what the last one yields. A runtime error is reported and
leaves no result. -/
def runStatements (fuel : Nat) (statements : List Stmt) : Action (Option Value) := fun s =>
  match Run.program fuel statements s.machine with
  | .ok value m =>
    let trace := m.trace.note 1 fun _ =>
      "executed " ++ toString statements.length ++ " statements"
    .ok value { s with machine := { m with trace := trace } }
  | .error (.error e) m =>
    let trace := m.trace.note 1 fun _ =>
      "runtime error at line " ++ toString e.token.line ++ ": " ++ e.kind.label
    .ok none { s with machine := { m with trace := trace }, ledger := s.ledger.aborted e }
  | .error stop m => .error stop { s with machine := m }

/-- **Runs a program**, unless an error refuses it, and answers what its last statement yields. -/
def run (fuel : Nat) (source : Source) : Action (Option Value) := do
  match ← readProgram source with
  | none => return none
  | some statements => runStatements fuel statements

/-- Lists the tokens of a source. -/
def listTokens (source : Source) : Action Unit := do
  for t in ← readTokens source do
    list t.describe

/-- Lists the statements of a program in prefix form. -/
def listStatements (source : Source) : Action Unit := do
  for s in (← readProgram source).getD [] do
    match s.printed with
    | .ok text => list text
    | .error f => throw (.fault f)

/-- **Handles a program** as the mode says. -/
def handle (fuel : Nat) (mode : Mode) (source : Source) : Action Unit := do
  match mode with
  | .run => let _ ← run fuel source
  | .tokens => listTokens source
  | .tree => listStatements source

/-- **Handles a line of input.** Errors of earlier lines are forgotten first. -/
def enterLine (fuel : Nat) (mode : Mode) (line : String) : Action Unit := do
  onLedger Ledger.reset
  handle fuel mode (Source.ofText line)

/-! ## Single expressions and statements -/

/-- Scans and evaluates a single expression; there is no value after a syntax error. -/
def evaluate (source : Source) : Action (Option Value) := do
  let tokens ← readTokens source
  match ← onTokens tokens Cursor.readExpression with
  | none => return none
  | some e => onMachine (Run.evaluate e)

/-- Scans and reads a program, and executes its statements one by one. -/
def executeEach (fuel : Nat) (source : Source) : Action (Option (List (Option Value))) := do
  let tokens ← readTokens source
  match ← onTokens tokens Cursor.readProgram with
  | none => return none
  | some statements => some <$> statements.mapM fun s => onMachine (Run.execute fuel s)

/-- Scans and reads a program, and executes it whatever was reported before. -/
def runUnchecked (fuel : Nat) (source : Source) : Action (Option Value) := do
  let tokens ← readTokens source
  match ← onTokens tokens Cursor.readProgram with
  | none => return none
  | some statements => runStatements fuel statements

/-! ## Streams -/

/-- A session with empty streams and an empty trace; scopes, messages and flags are kept. -/
def drained (s : Session) : Session :=
  { s with
    machine := { s.machine with output := #[], trace := { s.machine.trace with entries := #[] } }
    ledger := { s.ledger with written := #[] }
    listing := #[] }

end Session

end Lox
