import Lox.Grammar.Recovery
import Lox.Grammar.Statement
import Lox.Report.Ledger

/-! # Reading a list of tokens

A `Cursor` stands at a position in a list of tokens, with the state of recovery and the ledger that
reports go to. Every rule of the grammar can be run at it (`Cursor.run`), also after an earlier
rule was rejected. Reading a whole program or a single expression reports the first error and
answers nothing then; after an error in a program the cursor moves on to the next statement. -/

namespace Lox

/-- A place in a list of tokens. -/
structure Cursor where
  tokens : List Token
  position : Nat := 0
  recovery : Recovery := .resumed
  ledger : Ledger := {}

namespace Cursor

/-- A step of the cursor, which fails only where the tokens end without an end token. -/
abbrev Step := EStateM Fault Cursor

/-- A move of the cursor by a rule, which may be rejected. -/
abbrev Move := EStateM Rejection Cursor

/-- The tokens that are left. -/
def rest (c : Cursor) : List Token := c.tokens.drop c.position

/-- The token just passed. In front of the first token it is the last one of the list. -/
def previous? (c : Cursor) : Option Token :=
  if c.position = 0 then c.tokens.getLast? else c.tokens[c.position - 1]?

/-- Moves to where the given tokens are left. -/
def leave (rest : List Token) (c : Cursor) : Cursor :=
  { c with position := c.tokens.length - rest.length }

/-- Runs a rule on the tokens that are left; it is told how many there are. -/
def run {α : Type} (rule : (bound : Nat) → Rule α) : Move α := fun c =>
  match rule c.rest.length c.rest with
  | .ok a rest => .ok a (c.leave rest)
  | .error e rest => .error e (c.leave rest)

/-! ## Single tokens -/

/-- The token just passed. -/
def previous : Step Token := fun c =>
  match c.previous? with
  | some t => .ok t c
  | none => .error .endOfTokens c

/-- Passes the next token, unless it is the end token, and answers the token just passed. -/
def advance : Step Token := fun c =>
  match c.rest with
  | [] => .error .endOfTokens c
  | t :: _ =>
    if t.kind = .endOfInput then previous c else .ok t { c with position := c.position + 1 }

/-- Passes the next token if it is of one of the kinds. -/
def accept (kinds : List TokenKind) : Move Bool := fun c =>
  if kinds.isEmpty then .ok false c
  else run (fun _ => Option.isSome <$> Rule.accept (· ∈ kinds)) c

/-! ## Recovery -/

/-- Moves to the next statement after an error: over one token at least, unless the end is next. -/
def resume : Step Unit := fun c =>
  match c.rest with
  | [] => .error .endOfTokens { c with recovery := .seeking }
  | t :: rest =>
    if t.kind = .endOfInput then .ok () { c with recovery := .resumed }
    else match Recovery.landing? t rest with
      | some n => .ok () { c with position := c.position + 1 + n, recovery := .resumed }
      | none => .error .endOfTokens { c with position := c.tokens.length, recovery := .seeking }

/-- Adds the message of a syntax error to the ledger. -/
def report (e : SyntaxError) (c : Cursor) : Cursor := { c with ledger := c.ledger.rejected e }

/-! ## Whole lists of tokens -/

/-- **Reads a program.** An error is reported once, the cursor moves on to the next statement, and
there is no result. -/
def readProgram : Step (Option (List Stmt)) := fun c =>
  match run Grammar.program c with
  | .ok statements c => .ok (some statements) c
  | .error (.error e) c => (resume *> pure none) (c.report e)
  | .error .endOfTokens c => .error .endOfTokens c

/-- **Reads a single expression.** An error is reported, and there is no result. -/
def readExpression : Step (Option Expr) := fun c =>
  match run Grammar.wholeExpression c with
  | .ok e c => .ok (some e) c
  | .error (.error e) c => .ok none (c.report e)
  | .error .endOfTokens c => .error .endOfTokens c

end Cursor

end Lox
