import Lox.Report
import Lox.Tree

/-! # Rules of the grammar

A rule reads tokens from the front of a list and leaves the rest. It ends with a result, or it is
rejected: by a token that cannot go on, or because the list ends without an end token. A rejected
rule leaves the tokens from where it stopped.

The end token is never passed and never matches, so a rule that succeeds leaves it in place. -/

namespace Lox

/-- Why a rule cannot go on. -/
inductive Rejection
  /-- A token stands where the grammar has no place for it. -/
  | error (e : SyntaxError)
  /-- The tokens ended without an end token. -/
  | endOfTokens

/-- A rule of the grammar, acting on the tokens that are left. -/
abbrev Rule := EStateM Rejection (List Token)

namespace Rule

/-- The next token, which stays in place. -/
def peek : Rule Token := fun ts =>
  match ts with
  | [] => .error .endOfTokens []
  | t :: rest => .ok t (t :: rest)

/-- Passes the next token, unless it is the end token. -/
def skip : Rule Unit := fun ts =>
  match ts with
  | [] => .error .endOfTokens []
  | t :: rest => if t.kind = .endOfInput then .ok () (t :: rest) else .ok () rest

/-- Whether the next token is of a kind; the end token never is. -/
def check (wanted : TokenKind → Bool) : Rule Bool := do
  let t ← peek
  return t.kind ≠ .endOfInput && wanted t.kind

/-- Passes the next token if it is of a kind, and answers it. -/
def accept (wanted : TokenKind → Bool) : Rule (Option Token) := fun ts =>
  match ts with
  | [] => .error .endOfTokens []
  | t :: rest =>
    if t.kind ≠ .endOfInput && wanted t.kind then .ok (some t) rest else .ok none (t :: rest)

/-- Stops at a token, for a reason. -/
def reject {α : Type} (token : Token) (kind : SyntaxErrorKind) : Rule α :=
  throw (.error ⟨token, kind⟩)

/-- Passes a token of the given kind, or stops at the one in its place. -/
def expect (kind : TokenKind) (otherwise : SyntaxErrorKind) : Rule Token := do
  match ← accept (· = kind) with
  | some t => return t
  | none => reject (← peek) otherwise

/-- Whether the end token is next. -/
def isAtEnd : Rule Bool := do return (← peek).kind = .endOfInput

@[simp] theorem peek_cons (t : Token) (rest : List Token) :
    peek (t :: rest) = .ok t (t :: rest) := rfl

@[simp] theorem peek_nil : peek [] = .error .endOfTokens [] := rfl

end Rule

end Lox
