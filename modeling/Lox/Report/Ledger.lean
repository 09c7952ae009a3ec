import Lox.Report
import Lox.Text.Lines

/-! # The ledger of reports

A ledger is handed from stage to stage of a run. It keeps the messages, remembers whether a lexical
or syntax error and whether a runtime error was among them, and holds what went to the error stream.
The flags can be taken back one by one; taking back everything also forgets the messages, while the
stream keeps what was written. -/

namespace Lox

/-- The messages reported so far, the two flags they leave behind, and the messages written to the
error stream. -/
structure Ledger where
  messages : Array String := #[]
  hadError : Bool := false
  hadRuntimeError : Bool := false
  written : Array String := #[]
deriving DecidableEq

namespace Ledger

/-- Adds a message to the list and writes it. -/
def emit (message : String) (l : Ledger) : Ledger :=
  { l with messages := l.messages.push message, written := l.written.push message }

@[simp] theorem messages_emit (message : String) (l : Ledger) :
    (l.emit message).messages = l.messages.push message := rfl

/-- Reports characters that are no token. -/
def lexical (e : LexicalError) (l : Ledger) : Ledger :=
  { l.emit e.render with hadError := true }

/-- Reports tokens that are no program. -/
def rejected (e : SyntaxError) (l : Ledger) : Ledger :=
  { l.emit e.render with hadError := true }

/-- Reports an operation that failed. -/
def aborted (e : RuntimeError) (l : Ledger) : Ledger :=
  { l.emit e.render with hadRuntimeError := true }

@[simp] theorem messages_lexical (e : LexicalError) (l : Ledger) :
    (l.lexical e).messages = l.messages.push e.render := rfl

@[simp] theorem messages_rejected (e : SyntaxError) (l : Ledger) :
    (l.rejected e).messages = l.messages.push e.render := rfl

@[simp] theorem messages_aborted (e : RuntimeError) (l : Ledger) :
    (l.aborted e).messages = l.messages.push e.render := rfl

@[simp] theorem written_aborted (e : RuntimeError) (l : Ledger) :
    (l.aborted e).written = l.written.push e.render := rfl

@[simp] theorem hadError_aborted (e : RuntimeError) (l : Ledger) :
    (l.aborted e).hadError = l.hadError := rfl

@[simp] theorem hadRuntimeError_aborted (e : RuntimeError) (l : Ledger) :
    (l.aborted e).hadRuntimeError = true := rfl

/-- Takes back the flag of lexical and syntax errors. -/
def clearError (l : Ledger) : Ledger := { l with hadError := false }

/-- Takes back the flag of runtime errors. -/
def clearRuntimeError (l : Ledger) : Ledger := { l with hadRuntimeError := false }

/-- Takes back both flags and forgets the messages. -/
def reset (l : Ledger) : Ledger :=
  { l.clearError.clearRuntimeError with messages := #[] }

@[simp] theorem written_reset (l : Ledger) : l.reset.written = l.written := rfl

@[simp] theorem messages_reset (l : Ledger) : l.reset.messages = #[] := rfl

/-- The text of the error stream: every message on a line of its own. -/
def stream (l : Ledger) : String := Text.ofLines l.written

end Ledger

end Lox
