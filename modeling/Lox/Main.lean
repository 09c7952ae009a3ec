import Lox.Command

/-! # The command line

The program around the command: it reads the script or the lines of the prompt, hands them to a
session, and writes what the session leaves behind. -/

namespace Lox.Command

/-- The rounds granted to each loop of a program: more than can be run. -/
def unlimited : Nat := 4611686018427387904

/-- Writes what a console holds, and the entries of its trace; answers the console without them. -/
def flush (o : Options) (file : TraceFile) (c : Console) : IO (Console × TraceFile) := do
  let s := c.session
  (← IO.getStdout).putStr c.written
  (← IO.getStdout).flush
  (← IO.getStderr).putStr s.ledger.stream
  let written := file.logAll s.machine.trace.entries
  if !s.machine.trace.entries.isEmpty then
    match o.traceFile with
    | some path => IO.FS.writeFile path (written.contents.getD "")
    | none => throw (IO.userError "the trace has no file")
  return ({ session := s.drained }, written)

/-- Handles one program and writes what it leaves behind. -/
def handleAndFlush (o : Options) (file : TraceFile) (source : Source) (c : Console) :
    IO (Console × TraceFile) := do
  match Console.onSession id (Session.handle unlimited o.mode source) c with
  | .ok _ c => flush o file c
  | .error _ c => do
    let _ ← flush o file c
    throw (IO.userError "the program could not be run")

/-- The prompt: one line after the other until the input ends. -/
partial def promptLoop (o : Options) (file : TraceFile) (c : Console) : IO Unit := do
  (← IO.getStdout).putStr Console.promptText
  (← IO.getStdout).flush
  let line ← (← IO.getStdin).getLine
  if line.isEmpty then IO.println ""
  else
    let line := Prompt.lineText true (Prompt.firstLine line.toList).1
    if Text.isBlankLine line then promptLoop o file c
    else
      let c := { c with session := { c.session with ledger := c.session.ledger.reset } }
      let (c, file) ← handleAndFlush o file (Source.ofText line) c
      promptLoop o file c

/-- The bytes of a script, if it exists. -/
def readScript? (path : String) : IO (Option ByteArray) := do
  try
    return some (← IO.FS.readBinFile path)
  catch
    | .noFileOrDirectory .. => return none
    | e => throw e

/-- The command with the options that its arguments ask for. -/
def runWith (o : Options) : IO UInt32 := do
  let file : TraceFile := { level := o.verbosity }
  match o.script with
  | none =>
    promptLoop o file (start o)
    return 0
  | some path =>
    let path := Place.normalize path
    match ← readScript? path with
    | none =>
      IO.eprintln ("Error: file " ++ path ++ " not found")
      return missingStatus.toUInt32
    | some bytes =>
      let (c, _) ← handleAndFlush o file (Source.ofBytes bytes.toList) (start o)
      return ((statusOf c.session.ledger).getD 0).toUInt32

end Lox.Command

/-- Runs the command with its arguments. -/
def main (arguments : List String) : IO UInt32 := do
  match Lox.CommandLine.read arguments with
  | .error .help =>
    IO.print Lox.helpText
    return 0
  | .error (.invalid e) =>
    IO.eprint e.render
    return Lox.Command.usageStatus.toUInt32
  | .ok o => Lox.Command.runWith o
