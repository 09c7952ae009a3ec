import Lox.Run.Operators

/-! # Evaluating expressions

Operands are evaluated from left to right. `and` and `or` evaluate their right operand only if the
left one does not decide, and answer the operand that does, as it is. Evaluating never prints, and
it changes no scope but by assignments. -/

namespace Lox.Run

/-- Adds the entry of an evaluated expression and answers its value, which is looked at only if the
entry is kept. -/
def noted (kind : NodeKind) (yielded : Option Value) : Run (Option Value) := do
  if keepsLevel (← get).trace.level 4 then
    noteValue 4 yielded fun text => kind.name ++ " -> " ++ text
  return yielded

/-- Whether the left operand of a logical operator decides: any operator but `or` acts as
`and`. -/
def decides (operator : Token) (left : Option Value) : Bool :=
  if operator.kind = .keyword .orWord then yieldIsTruthy left else !yieldIsTruthy left

/-- **What an expression yields.** -/
def evaluate : Expr → Run (Option Value)
  | .literal value => noted .literal value
  | .grouping inner => do
    let value ← evaluate inner
    noted .grouping value
  | .unary operator right => do
    let operand ← evaluate right
    let value ← applyUnary operator operand
    noted .unary value
  | .binary left operator right => do
    let a ← evaluate left
    let b ← evaluate right
    let value ← applyBinary operator a b
    noted .binary value
  | .logical left operator right => do
    let a ← evaluate left
    let value ← if decides operator a then pure a else evaluate right
    noted .logical value
  | .reference name => do
    let value ← lookup name
    noted .reference value
  | .assign name inner => do
    let value ← evaluate inner
    assign name value
    noteValue 2 value fun text => "assign " ++ name.lexeme ++ " = " ++ text
    noted .assign value
  | .misplaced node => fail (.unexpectedNode .evaluating node.kind)

end Lox.Run
