import Lox.Run.Machine

/-! # Operators on values

What the operators of the language do with the values of their operands. Equality applies to all
values, addition to two numbers or two strings, and the other binary operators to two numbers.
Arithmetic is that of binary64 numbers: dividing by zero gives an infinity, or the number that is
none. The host has no quotient by zero, so that case is set apart before it is asked for one. -/

namespace Lox.Run

/-- The sign `!` gives the opposite truth; the sign `-` applies to numbers only. -/
def applyUnary (operator : Token) (operand : Option Value) : Run (Option Value) :=
  match operator.kind with
  | .bang => pure (some (.boolean (!yieldIsTruthy operand)))
  | .minus => match operand with
    | some (.number n) => pure (some (.number (-n)))
    | _ => abort operator .operandNotNumber
  | kind => fail (.unknownUnaryOperator kind)

/-- The quotient of two numbers, which there is for no divisor that is zero. -/
def quotient (a b : Float) : Except Fault Float :=
  if b == 0 then .error .zeroDivisor else .ok (a / b)

/-- A number with the sign of another one; zeros have a sign too. -/
def withSign (a sign : Float) : Float :=
  if sign.toBits >>> 63 = 1 then -a.abs else a.abs

/-- **Division.** A divisor that is zero gives an infinity, or the number that is none. -/
def divide (a b : Float) : Except Fault Float :=
  if b == 0 then
    if a == 0 || a.isNaN then .ok (0.0 / 0.0)
    else .ok (withSign (1.0 / 0.0) a * withSign 1.0 b)
  else quotient a b

/-- An operator on two numbers. -/
def onNumbers (a b : Float) : TokenKind → Except Fault Value
  | .minus => .ok (.number (a - b))
  | .star => .ok (.number (a * b))
  | .slash => .number <$> divide a b
  | .greater => .ok (.boolean (b < a))
  | .greaterEqual => .ok (.boolean (b ≤ a))
  | .less => .ok (.boolean (a < b))
  | .lessEqual => .ok (.boolean (a ≤ b))
  | kind => .error (.unknownBinaryOperator kind)

/-- A binary operator on what its operands yielded. That the operands are numbers is checked before
the operator is looked at. -/
def applyBinary (operator : Token) (left right : Option Value) : Run (Option Value) :=
  match operator.kind with
  | .equalEqual => pure (some (.boolean (yieldEquals left right)))
  | .bangEqual => pure (some (.boolean (!yieldEquals left right)))
  | .plus => match left, right with
    | some (.number a), some (.number b) => pure (some (.number (a + b)))
    | some (.string a), some (.string b) => pure (some (.string (a ++ b)))
    | _, _ => abort operator .operandsNotAddable
  | kind => match left, right with
    | some (.number a), some (.number b) => match onNumbers a b kind with
      | .ok v => pure (some v)
      | .error f => fail f
    | _, _ => abort operator .operandsNotNumbers

end Lox.Run
