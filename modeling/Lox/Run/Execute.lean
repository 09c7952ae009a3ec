import Lox.Run.Evaluate

/-! # Executing statements

Statements are executed for their effect; an expression statement also yields its value. The rounds
of each loop are counted down from `fuel`, so every run ends: a program whose loops end runs in the
same way with any fuel that is large enough. -/

namespace Lox.Run

/-- The line of an expression in a trace entry. -/
def lineText (e : Expr) : String :=
  match e.line? with
  | some line => toString line
  | none => "?"

/-- The truth of a condition in a trace entry. -/
def truthText (b : Bool) : String := if b then "True" else "False"

/-- Whether an expression yields something that counts as true. -/
def holds (condition : Expr) : Run Bool := yieldIsTruthy <$> evaluate condition

/-- The truth of a condition, after the entry of the branch it decides. -/
def branchTaken (condition : Expr) : Run Bool := do
  let truth ← holds condition
  note 3 fun _ => "if condition at line " ++ lineText condition ++ " -> " ++ truthText truth
  return truth

/-- Binds a name and adds the entry of the definition. -/
def declare (name : Token) (value : Option Value) : Run Unit := do
  define name value
  let depth ← depth
  noteValue 2 value fun text =>
    "define " ++ name.lexeme ++ " = " ++ text ++ " (depth " ++ toString depth ++ ")"

mutual

/-- **Executes a statement** and answers what it yields, which only an expression statement
does. -/
def execute (fuel : Nat) : Stmt → Run (Option Value)
  | .expression inner => evaluate inner
  | .print inner => do
    let value ← evaluate inner
    let text ← shown value
    note 4 fun _ => "print " ++ Text.quoted text
    print text
    return none
  | .declaration name none => do
    declare name (some .nil)
    return none
  | .declaration name (some initializer) => do
    let value ← evaluate initializer
    declare name value
    return none
  | .block body => do
    inScope (executeAll fuel body)
    return none
  | .branch condition thenBranch none => do
    if ← branchTaken condition then let _ ← execute fuel thenBranch
    return none
  | .branch condition thenBranch (some elseBranch) => do
    if ← branchTaken condition then let _ ← execute fuel thenBranch
    else let _ ← execute fuel elseBranch
    return none
  | .loop condition body => do
    let rounds ← repeatWhile (holds condition) (discard (execute fuel body)) fuel 0
    note 3 fun _ =>
      "while loop at line " ++ lineText condition ++ " ran " ++ toString rounds ++ " times"
    return none
  | .misplaced node => fail (.unexpectedNode .executing node.kind)

/-- Executes statements in order. -/
def executeAll (fuel : Nat) : List Stmt → Run Unit
  | [] => return
  | s :: rest => do
    let _ ← execute fuel s
    executeAll fuel rest

end

/-- **Executes the statements of a program** in order and answers what the last one yields. -/
def program (fuel : Nat) (statements : List Stmt) : Run (Option Value) :=
  statements.foldlM (fun _ s => execute fuel s) none

end Lox.Run
