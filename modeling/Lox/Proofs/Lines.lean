import Lox.Run.Machine

/-! # Programs on other lines

The same program may stand on other lines. Moving it changes the line of each of its tokens, and
nothing else.

* **`Token.moved`**, **`Expr.moved`**, **`Stmt.moved`** — tokens and trees with their lines mapped;
* **`Stmt.mapped`** — statements with whatever else put for their names and expressions;
* **`LexicalError.moved`**, **`SyntaxError.moved`**, **`RuntimeError.moved`**, **`Stop.moved`** —
  errors with their lines mapped. -/

namespace Lox

variable {f g : Int → Int}

/-! ## Tokens -/

namespace Token

/-- A token on another line. -/
def moved (f : Int → Int) (t : Token) : Token := { t with line := f t.line }

@[simp] theorem kind_moved (t : Token) : (t.moved f).kind = t.kind := rfl

@[simp] theorem lexeme_moved (t : Token) : (t.moved f).lexeme = t.lexeme := rfl

@[simp] theorem literal_moved (t : Token) : (t.moved f).literal = t.literal := rfl

@[simp] theorem line_moved (t : Token) : (t.moved f).line = f t.line := rfl

@[simp] theorem moved_id : moved id = id := rfl

end Token

/-! ## Expressions -/

namespace Expr

/-- An expression on other lines. -/
def moved (f : Int → Int) : Expr → Expr
  | literal value => .literal value
  | grouping inner => .grouping (inner.moved f)
  | unary operator right => .unary (operator.moved f) (right.moved f)
  | binary left operator right => .binary (left.moved f) (operator.moved f) (right.moved f)
  | logical left operator right => .logical (left.moved f) (operator.moved f) (right.moved f)
  | reference name => .reference (name.moved f)
  | assign name value => .assign (name.moved f) (value.moved f)
  | misplaced node => .misplaced node

/-- Lines that stay move nothing. -/
@[simp] theorem moved_id (e : Expr) : e.moved id = e := by
  induction e with
  | literal | reference | misplaced => rfl
  | grouping inner ih => rw [moved, ih]
  | unary operator right ih => rw [moved, ih, Token.moved_id, id]
  | binary left operator right ihLeft ihRight =>
    rw [moved, ihLeft, ihRight, Token.moved_id, id]
  | logical left operator right ihLeft ihRight =>
    rw [moved, ihLeft, ihRight, Token.moved_id, id]
  | assign name value ih => rw [moved, ih, Token.moved_id, id]

end Expr

/-! ## Statements -/

mutual

/-- A statement on other lines. -/
def Stmt.moved (f : Int → Int) : Stmt → Stmt
  | .expression inner => .expression (inner.moved f)
  | .print inner => .print (inner.moved f)
  | .declaration name initializer => .declaration (name.moved f) (initializer.map (Expr.moved f))
  | .block body => .block (Stmt.allMoved f body)
  | .branch condition thenBranch none => .branch (condition.moved f) (thenBranch.moved f) none
  | .branch condition thenBranch (some elseBranch) =>
    .branch (condition.moved f) (thenBranch.moved f) (some (elseBranch.moved f))
  | .loop condition body => .loop (condition.moved f) (body.moved f)
  | .misplaced node => .misplaced node

/-- Statements on other lines. -/
def Stmt.allMoved (f : Int → Int) : List Stmt → List Stmt
  | [] => []
  | s :: rest => s.moved f :: Stmt.allMoved f rest

end

mutual

/-- A statement with its names and its expressions mapped. -/
def Stmt.mapped (g : Token → Token) (k : Expr → Expr) : Stmt → Stmt
  | .expression inner => .expression (k inner)
  | .print inner => .print (k inner)
  | .declaration name initializer => .declaration (g name) (initializer.map k)
  | .block body => .block (Stmt.allMapped g k body)
  | .branch condition thenBranch none => .branch (k condition) (thenBranch.mapped g k) none
  | .branch condition thenBranch (some elseBranch) =>
    .branch (k condition) (thenBranch.mapped g k) (some (elseBranch.mapped g k))
  | .loop condition body => .loop (k condition) (body.mapped g k)
  | .misplaced node => .misplaced node

/-- Statements with their names and their expressions mapped. -/
def Stmt.allMapped (g : Token → Token) (k : Expr → Expr) : List Stmt → List Stmt
  | [] => []
  | s :: rest => s.mapped g k :: Stmt.allMapped g k rest

end

mutual

/-- A statement is moved by moving its names and its expressions. -/
theorem Stmt.moved_eq_mapped : ∀ s : Stmt, s.moved f = s.mapped (Token.moved f) (Expr.moved f)
  | .expression _ | .print _ | .declaration .. | .misplaced _ => rfl
  | .block body => by rw [Stmt.moved, Stmt.mapped, Stmt.allMoved_eq_allMapped body]
  | .branch _ thenBranch none => by rw [Stmt.moved, Stmt.mapped, Stmt.moved_eq_mapped thenBranch]
  | .branch _ thenBranch (some elseBranch) => by
    rw [Stmt.moved, Stmt.mapped, Stmt.moved_eq_mapped thenBranch, Stmt.moved_eq_mapped elseBranch]
  | .loop _ body => by rw [Stmt.moved, Stmt.mapped, Stmt.moved_eq_mapped body]

/-- Statements are moved by moving their names and their expressions. -/
theorem Stmt.allMoved_eq_allMapped :
    ∀ ss : List Stmt, Stmt.allMoved f ss = Stmt.allMapped (Token.moved f) (Expr.moved f) ss
  | [] => rfl
  | s :: rest => by
    rw [Stmt.allMoved, Stmt.allMapped, Stmt.moved_eq_mapped s, Stmt.allMoved_eq_allMapped rest]

end

/-- Statements one after the other are mapped one after the other. -/
theorem Stmt.allMapped_append (g : Token → Token) (k : Expr → Expr) (ss ss' : List Stmt) :
    Stmt.allMapped g k (ss ++ ss') = Stmt.allMapped g k ss ++ Stmt.allMapped g k ss' := by
  induction ss with
  | nil => rfl
  | cons s rest ih => rw [List.cons_append, allMapped, allMapped, ih, List.cons_append]

/-- Statements are moved one by one. -/
theorem Stmt.allMoved_eq_map (ss : List Stmt) : Stmt.allMoved f ss = ss.map (Stmt.moved f) := by
  induction ss with
  | nil => rfl
  | cons s rest ih => rw [allMoved, ih, List.map_cons]

mutual

/-- Lines that stay move nothing. -/
@[simp] theorem Stmt.moved_id : ∀ s : Stmt, s.moved id = s
  | .expression inner | .print inner => by rw [Stmt.moved, Expr.moved_id]
  | .declaration name initializer => by
    rw [Stmt.moved, Token.moved_id, funext Expr.moved_id, Option.map_id']
    rfl
  | .block body => by rw [Stmt.moved, Stmt.allMoved_id body]
  | .branch condition thenBranch none => by
    rw [Stmt.moved, Expr.moved_id, Stmt.moved_id thenBranch]
  | .branch condition thenBranch (some elseBranch) => by
    rw [Stmt.moved, Expr.moved_id, Stmt.moved_id thenBranch, Stmt.moved_id elseBranch]
  | .loop condition body => by rw [Stmt.moved, Expr.moved_id, Stmt.moved_id body]
  | .misplaced node => by rw [Stmt.moved]

/-- Lines that stay move nothing. -/
@[simp] theorem Stmt.allMoved_id : ∀ ss : List Stmt, Stmt.allMoved id ss = ss
  | [] => rfl
  | s :: rest => by rw [Stmt.allMoved, Stmt.moved_id s, Stmt.allMoved_id rest]

end

/-! ## Errors -/

/-- A lexical error on another line. -/
def LexicalError.moved (f : Int → Int) (e : LexicalError) : LexicalError :=
  { e with line := f e.line }

/-- A syntax error on another line. -/
def SyntaxError.moved (f : Int → Int) (e : SyntaxError) : SyntaxError :=
  { e with token := e.token.moved f }

@[simp] theorem SyntaxError.kind_moved (e : SyntaxError) : (e.moved f).kind = e.kind := rfl

@[simp] theorem SyntaxError.token_moved (e : SyntaxError) :
    (e.moved f).token = e.token.moved f := rfl

/-- A runtime error on another line. -/
def RuntimeError.moved (f : Int → Int) (e : RuntimeError) : RuntimeError :=
  { e with token := e.token.moved f }

/-- A stop on another line. -/
def Stop.moved (f : Int → Int) : Stop → Stop
  | error e => .error (e.moved f)
  | fault reason => .fault reason
  | exhausted => .exhausted

/-- Lines that stay move nothing. -/
@[simp] theorem Stop.moved_id (stop : Stop) : stop.moved id = stop := by
  cases stop <;> rfl

end Lox
