import Lox.Token

/-! # Resuming after a syntax error

After an error reading goes on in front of the next statement. A `Recovery` starts to seek when an
error is met; it is shown each pair of the token just passed and the next one, and it resumes at the
first pair with a boundary between them: the next token is the end or opens a statement, or the
token passed was a semicolon.

`Recovery.landing?` is the number of tokens passed until then. -/

namespace Lox

/-- Whether reading is under way or looks for a boundary after an error. -/
inductive Recovery
  | resumed
  | seeking
deriving DecidableEq, Repr

namespace Recovery

/-- A statement boundary lies between two tokens. -/
def isBoundary (previous current : TokenKind) : Bool :=
  current = .endOfInput || previous = .semicolon || current.startsStatement

/-- Looks at the token just passed and the next one. -/
def step (previous current : TokenKind) : Recovery → Recovery
  | seeking => if isBoundary previous current then resumed else seeking
  | resumed => resumed

/-- Whether an error has been met and no boundary since. -/
def isSeeking (r : Recovery) : Bool := r = seeking

@[simp] theorem step_resumed (previous current : TokenKind) :
    step previous current resumed = resumed := rfl

/-- A recovery that seeks resumes exactly at a boundary. -/
theorem step_seeking_eq_resumed_iff (previous current : TokenKind) :
    step previous current seeking = resumed ↔ isBoundary previous current = true := by
  cases h : isBoundary previous current <;> simp [step, h]

/-- How many tokens are passed behind `previous` until a boundary; none if the tokens end
without one. -/
def landing? (previous : Token) : List Token → Option Nat
  | [] => none
  | t :: rest =>
    if isBoundary previous.kind t.kind then some 0 else (landing? t rest).map (· + 1)

end Recovery

end Lox
