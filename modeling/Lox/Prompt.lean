import Lox.Session
import Lox.Text.Blank

/-! # The prompt

At the prompt lines are read one after the other: first those of a queue, as they are, and then
those of the standard input, each one asked for by the prompt text. Every line that shows something
is handled as a program; no line is a command of the prompt itself, and only the end of the input
ends it.

* **`Prompt.read`** — the next line;
* **`Prompt.events`** — all that happens at the prompt until the input ends;
* **`Console.respond`** — what one event does to a session and its standard output. -/

namespace Lox

/-- Where the prompt reads: a queue of lines, and the standard input behind it. Raw input keeps
carriage returns at the end of a line. -/
structure Prompt where
  queue : List String := []
  input : List Char := []
  raw : Bool := false
deriving DecidableEq, Repr

/-- What happens at the prompt: it asks for a line, a line is entered, or the input has ended. -/
inductive PromptEvent
  | asked
  | entered (line : String)
  | ended
deriving DecidableEq, Repr

namespace Prompt

/-- A line of the standard input without what ends it. -/
def lineText (raw : Bool) (line : List Char) : String :=
  String.ofList (if raw then line else (line.reverse.dropWhile (· = '\r')).reverse)

/-- The first line of a text that is not empty, and what is left behind its line end. -/
def firstLine (input : List Char) : List Char × List Char :=
  (input.takeWhile (· ≠ '\n'), (input.dropWhile (· ≠ '\n')).tail)

theorem length_firstLine_lt {c : Char} {rest : List Char} :
    (firstLine (c :: rest)).2.length < (c :: rest).length := by
  have h : ((c :: rest).dropWhile (· ≠ '\n')).length ≤ (c :: rest).length :=
    (List.dropWhile_suffix _).length_le
  simp only [firstLine, List.length_tail]
  simp only [List.length_cons] at h ⊢
  omega

/-- The next line, none if the input has ended. -/
def read (p : Prompt) : Option String × Prompt :=
  match p.queue, p.input with
  | line :: queue, _ => (some line, { p with queue := queue })
  | [], [] => (none, p)
  | [], c :: rest =>
    let (line, input) := firstLine (c :: rest)
    (some (lineText p.raw line), { p with input := input })

/-- Lines of the queue are not asked for. -/
def asks (p : Prompt) : Bool := p.queue.isEmpty

/-- The lines of the standard input, each asked for, and the end. -/
def inputEvents (raw : Bool) : List Char → List PromptEvent
  | [] => [.asked, .ended]
  | c :: rest =>
    .asked :: .entered (lineText raw (firstLine (c :: rest)).1)
      :: inputEvents raw (firstLine (c :: rest)).2
termination_by input => input.length
decreasing_by exact length_firstLine_lt

/-- **All that happens at the prompt** until the input ends. -/
def events (p : Prompt) : List PromptEvent :=
  p.queue.map .entered ++ inputEvents p.raw p.input

end Prompt

/-- A session at the prompt, and the text of the standard output, to which the prompt, the program
and the listings all write. -/
structure Console where
  session : Session
  written : String := ""

namespace Console

/-- An action at the prompt, which may stop for reasons of the type `ε`. -/
abbrev Action (ε : Type) := EStateM ε Console

/-- Writes to the standard output. -/
def write {ε : Type} (text : String) : Action ε Unit :=
  modify fun c => { c with written := c.written ++ text }

/-- Moves what the session printed and listed to the standard output. -/
def gather (c : Console) (s : Session) : Console where
  session := { s with machine := { s.machine with output := #[] }, listing := #[] }
  written := c.written ++ Text.ofLines s.machine.output ++ Text.ofLines s.listing

/-- Acts on the session; what it printed and listed goes to the standard output. -/
def onSession {ε α : Type} (reason : Stop → ε) (action : Session.Action α) : Action ε α := fun c =>
  match action c.session with
  | .ok a s => .ok a (c.gather s)
  | .error stop s => .error (reason stop) (c.gather s)

/-- Handles a line that was entered. A line of blank characters does nothing. -/
def enter {ε : Type} (handle : String → Action ε Unit) (line : String) : Action ε Unit :=
  if Text.isBlankLine line then pure () else handle line

/-- The text that asks for a line. -/
def promptText : String := "> "

/-- Ends the prompt: the cursor moves to a new line. -/
def finish {ε : Type} : Action ε Unit := write "\n"

/-- **What one event at the prompt does.** -/
def respond {ε : Type} (handle : String → Action ε Unit) : PromptEvent → Action ε Unit
  | .asked => write promptText
  | .entered line => enter handle line
  | .ended => finish

/-- **The prompt from its first line to the end of the input.** -/
def loop {ε : Type} (handle : String → Action ε Unit) (p : Prompt) : Action ε Unit :=
  p.events.forM (respond handle)

end Console

end Lox
