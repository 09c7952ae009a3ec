import Lox.Command.Directory
import Lox.Command.Options
import Lox.Prompt
import Lox.Trace.File

/-! # The command

The command runs a script, or without one the prompt on its standard input. Its exit status tells
how it ended: 64 for a usage error, 65 for a program with a lexical or syntax error, 66 for a script
that does not exist, and 70 for a runtime error. A trace goes to a file of its own, which is made
when the first entry is written.

* **`Command.invoke`** — what the command does in a directory, with given arguments and input. -/

namespace Lox

/-- Why the command breaks off: a path that leads to no file that can be read or written, a trace
without a file, or a program that stopped in a way of its own. -/
inductive CommandFailure
  | isDirectory (path : String)
  | belowFile (path : String)
  | nowhere (path : String)
  | tooLong (path : String)
  | noPath (path : String)
  | noTraceFile
  | stopped (reason : Stop)

/-- What the command leaves behind: its exit status if it gave one, what it wrote to its streams and
to the trace file, and why it broke off. -/
structure CommandOutcome where
  status : Option Nat := none
  output : String := ""
  errors : String := ""
  traceFile : Option (String × String) := none
  failure : Option CommandFailure := none

namespace Command

/-! ## Exit statuses -/

/-- The exit status of a usage error. -/
def usageStatus : Nat := 64

/-- The exit status of a program with a lexical or syntax error. -/
def programStatus : Nat := 65

/-- The exit status of a script that does not exist. -/
def missingStatus : Nat := 66

/-- The exit status of a program stopped by a runtime error. -/
def runtimeStatus : Nat := 70

/-- The exit status that the flags of a ledger ask for. -/
def statusOf (l : Ledger) : Option Nat :=
  if l.hadError then some programStatus
  else if l.hadRuntimeError then some runtimeStatus
  else none

/-! ## The trace file -/

/-- Why a trace cannot be written to the file that the options name. -/
def traceFailure? (d : Directory) (o : Options) : Option CommandFailure :=
  match o.traceFile with
  | none => some .noTraceFile
  | some path => match Place.ofPath d path with
    | .entry _ | .above => none
    | .directory => some (.isDirectory path)
    | .belowFile => some (.belowFile path)
    | .nowhere => some (.nowhere path)
    | .tooLong => some (.tooLong path)
    | .noPath => some (.noPath path)

/-- The trace file and its contents after a run, if it is in the directory and anything was written
to it. -/
def traceFile? (d : Directory) (o : Options) (t : Trace) : Option (String × String) :=
  match o.traceFile.map (Place.ofPath d) with
  | some (.entry name) =>
    ((({ level := t.level } : TraceFile).logAll t.entries).close.contents).map (name, ·)
  | _ => none

/-! ## Handling programs -/

/-- Handles a program at the prompt or from a script. Where a trace is to be kept and cannot be
written, the command breaks off at its first entry, which follows the reading of the program. -/
def handle (fuel : Nat) (d : Directory) (o : Options) (source : Source) :
    Session.Action (Option CommandFailure) := do
  if o.verbosity ≠ 0 ∧ o.mode ≠ .tokens then
    if let some failure := traceFailure? d o then
      let _ ← Session.readProgram source
      return some failure
  Session.handle fuel o.mode source
  return none

/-- Handles a program and breaks off where a trace cannot be written. -/
def handleOrFail (fuel : Nat) (d : Directory) (o : Options) (source : Source) :
    Console.Action CommandFailure Unit := do
  match ← Console.onSession .stopped (handle fuel d o source) with
  | none => return
  | some failure => throw failure

/-- Handles a line of the prompt with a fresh ledger. -/
def handleLine (fuel : Nat) (d : Directory) (o : Options) (line : String) :
    Console.Action CommandFailure Unit := do
  Console.onSession .stopped (Session.onLedger Ledger.reset)
  handleOrFail fuel d o (Source.ofText line)

/-! ## Outcomes -/

/-- What a run of programs leaves behind. A trace that could not be written leaves no file. -/
def outcomeOf (d : Directory) (o : Options) (status : Ledger → Option Nat)
    (r : EStateM.Result CommandFailure Console Unit) : CommandOutcome :=
  match r with
  | .ok _ c =>
    { status := status c.session.ledger
      output := c.written
      errors := c.session.ledger.stream
      traceFile := traceFile? d o c.session.machine.trace }
  | .error failure c =>
    { output := c.written
      errors := c.session.ledger.stream
      traceFile := traceFile? d o c.session.machine.trace
      failure := some failure }

/-- The console at the start of the command. -/
def start (o : Options) : Console := { session := Session.new o.verbosity }

/-- Runs the prompt on a standard input. -/
def runPrompt (fuel : Nat) (d : Directory) (o : Options) (input : String) : CommandOutcome :=
  outcomeOf d o (fun _ => none)
    (Console.loop (handleLine fuel d o) { input := input.toList, raw := true } (start o))

/-- Runs a script that the directory may hold. -/
def runScript (fuel : Nat) (d : Directory) (o : Options) (path : String) : CommandOutcome :=
  let path := Place.normalize path
  let missing : CommandOutcome :=
    { status := some missingStatus, errors := "Error: file " ++ path ++ " not found\n" }
  match Place.ofPath d path with
  | .directory => { failure := some (.isDirectory path) }
  | .entry name => match d.contents? name with
    | some bytes =>
      outcomeOf d o statusOf (handleOrFail fuel d o (Source.ofBytes bytes) (start o))
    | none => missing
  | .tooLong => { failure := some (.tooLong path) }
  | .above | .belowFile | .nowhere | .noPath => missing

/-- **The command** in a directory, with its arguments and standard input. -/
def invoke (fuel : Nat) (d : Directory) (arguments : List String) (input : String) :
    CommandOutcome :=
  match CommandLine.read arguments with
  | .error .help => { status := some 0, output := helpText }
  | .error (.invalid e) => { status := some usageStatus, errors := e.render }
  | .ok o => match o.script with
    | none => runPrompt fuel d o input
    | some path => runScript fuel d o path

end Command

end Lox
