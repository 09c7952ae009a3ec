import Lox.Trace

/-! # Trace files

A trace is written to a file, each entry on a line of its own. The file is opened when the first
entry is written, and what it held before is dropped then; closed and opened again later, it keeps
what the trace wrote. A trace without entries leaves its file alone. -/

namespace Lox

/-- A file that receives a trace: what it holds, if it exists; whether it is open; and whether the
trace has opened it before. -/
structure TraceFile where
  level : Int := 0
  contents : Option String := none
  isOpen : Bool := false
  started : Bool := false
deriving DecidableEq, Repr

namespace TraceFile

/-- Opens the file: empty the first time, and as it is from then on. -/
def opened (f : TraceFile) : TraceFile :=
  if f.isOpen then f
  else
    { f with
      contents := if f.started then some (f.contents.getD "") else some ""
      isOpen := true
      started := true }

/-- Writes a line at the end of the open file. -/
def write (text : String) (f : TraceFile) : TraceFile :=
  { f with contents := some (f.contents.getD "" ++ text ++ "\n") }

/-- Writes an entry of level `l` if the level is kept. -/
def log (l : Int) (text : String) (f : TraceFile) : TraceFile :=
  if keepsLevel f.level l then f.opened.write text else f

/-- Writes the entries of a trace in order. -/
def logAll (entries : Array TraceEntry) (f : TraceFile) : TraceFile :=
  entries.foldl (fun f e => f.log e.level e.text) f

/-- Closes the file. -/
def close (f : TraceFile) : TraceFile := { f with isOpen := false }

@[simp] theorem contents_close (f : TraceFile) : f.close.contents = f.contents := rfl

@[simp] theorem level_log (l : Int) (text : String) (f : TraceFile) :
    (f.log l text).level = f.level := by
  unfold log opened write
  split
  · split <;> rfl
  · rfl

end TraceFile

end Lox
