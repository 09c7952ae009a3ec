import Lox.Proofs.Run.Drawn
import Lox.Proofs.Tree.Outline

/-! # Trees drawn from tokens are printed

Printing fails on a literal without a value, and on nodes in places where they do not belong. A tree
that is drawn from tokens has neither, and what is printed of it is the text of its outline.

* **`Expr.printed_toNode`**, **`Stmt.printed_toNode`** — expressions and statements are printed;
* **`Stmt.printed_eq`** — a statement is printed as a statement. -/

namespace Lox

variable {ts : List Token}

/-- **The node of an expression that is drawn from tokens is printed.** -/
theorem Expr.printed_toNode {e : Expr} (h : e.Drawn ts) :
    e.toNode.printed = .ok e.outline.text := by
  induction e with
  | literal value =>
    obtain ⟨v, rfl⟩ := Option.isSome_iff_exists.1 h
    rfl
  | grouping inner ih =>
    rw [Expr.toNode, Node.printed, ih h]
    rfl
  | unary operator right ih =>
    rw [Expr.toNode, Node.printed, ih h.2.2]
    rfl
  | binary left operator right ihLeft ihRight =>
    rw [Expr.toNode, Node.printed, ihLeft h.1, ihRight h.2.2]
    rfl
  | logical left operator right ihLeft ihRight =>
    rw [Expr.toNode, Node.printed, ihLeft h.1, ihRight h.2.2]
    rfl
  | reference name => rfl
  | assign name value ih =>
    rw [Expr.toNode, Node.printed, ih h.2]
    rfl
  | misplaced node => exact h.elim

mutual

/-- **The node of a statement that is drawn from tokens is printed.** -/
theorem Stmt.printed_toNode : ∀ s : Stmt, s.Drawn ts → s.toNode.printed = .ok s.outline.text
  | .expression inner, h | .print inner, h => by
    rw [Stmt.toNode, Node.printed, Expr.printed_toNode h]
    rfl
  | .declaration name none, _ => rfl
  | .declaration name (some initializer), h => by
    rw [Stmt.toNode, Node.printed, Expr.printed_toNode h.2]
    rfl
  | .block body, h => by
    rw [Stmt.toNode, Node.printed, Stmt.printedAll_toNodes body h]
    rfl
  | .branch condition thenBranch none, h => by
    rw [Stmt.toNode, Node.printed, Expr.printed_toNode h.1, Stmt.printed_toNode thenBranch h.2]
    rfl
  | .branch condition thenBranch (some elseBranch), h => by
    rw [Stmt.toNode, Node.printed, Expr.printed_toNode h.1, Stmt.printed_toNode thenBranch h.2.1,
      Stmt.printed_toNode elseBranch h.2.2]
    rfl
  | .loop condition body, h => by
    rw [Stmt.toNode, Node.printed, Expr.printed_toNode h.1, Stmt.printed_toNode body h.2]
    rfl
  | .misplaced _, h => h.elim

/-- The nodes of statements that are drawn from tokens are printed. -/
theorem Stmt.printedAll_toNodes : ∀ ss : List Stmt, Stmt.AllDrawn ts ss →
    Node.printedAll (Stmt.toNodes ss) = .ok (Outline.texts (Stmt.outlines ss))
  | [], _ => rfl
  | s :: rest, h => by
    rw [Stmt.toNodes, Node.printedAll, Stmt.printed_toNode s h.1,
      Stmt.printedAll_toNodes rest h.2]
    rfl

end

/-- The node of a statement that is drawn from tokens is one of a statement. -/
theorem Stmt.isStatement_kind_toNode {s : Stmt} (h : s.Drawn ts) :
    s.toNode.kind.isStatement = true := by
  cases s with
  | expression | print | block | loop => rfl
  | declaration name initializer => cases initializer <;> rfl
  | branch condition thenBranch elseBranch => cases elseBranch <;> rfl
  | misplaced node => exact h.elim

/-- **A statement that is drawn from tokens is printed** as the text of its outline. -/
theorem Stmt.printed_eq {s : Stmt} (h : s.Drawn ts) : s.printed = .ok s.outline.text := by
  rw [Stmt.printed, Node.printedStatement, if_pos (Stmt.isStatement_kind_toNode h)]
  exact Stmt.printed_toNode s h

/-- Statements that are drawn from tokens are printed one by one. -/
theorem Stmt.mapM_printed_eq {ss : List Stmt} (h : Stmt.AllDrawn ts ss) :
    ss.mapM Stmt.printed = .ok (Outline.texts (Stmt.outlines ss)) := by
  induction ss with
  | nil => rfl
  | cons s rest ih =>
    rw [List.mapM_cons, Stmt.printed_eq h.1, ih h.2]
    rfl

end Lox
