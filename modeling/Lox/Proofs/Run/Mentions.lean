import Mathlib.Data.Set.Lattice
import Lox.Proofs.Run.Drawn

/-! # What a tree mentions

A statement mentions the names that it reads, assigns to or declares, itself or somewhere inside.
Besides these names it mentions its literals, which are values unless the tree was assembled by
hand.

* **`Expr.names`**, **`Stmt.names`**, **`Stmt.allNames`** — the names mentioned;
* **`Expr.Over`**, **`Stmt.Over`**, **`Stmt.AllOver`** — nothing is mentioned but names of a set and
  literals that can be shown;
* **`Stmt.allOver`** — trees drawn from tokens are like that, over any set with the names they
  mention. -/

namespace Lox

/-! ## Names -/

/-- The names that an expression mentions. -/
def Expr.names : Expr → Set String
  | .literal _ => ∅
  | .grouping inner => inner.names
  | .unary _ right => right.names
  | .binary left _ right => left.names ∪ right.names
  | .logical left _ right => left.names ∪ right.names
  | .reference name => {name.lexeme}
  | .assign name value => insert name.lexeme value.names
  | .misplaced _ => ∅

mutual

/-- **The names that a statement mentions.** -/
def Stmt.names : Stmt → Set String
  | .expression inner => inner.names
  | .print inner => inner.names
  | .declaration name none => {name.lexeme}
  | .declaration name (some initializer) => insert name.lexeme initializer.names
  | .block body => Stmt.allNames body
  | .branch condition thenBranch none => condition.names ∪ thenBranch.names
  | .branch condition thenBranch (some elseBranch) =>
    condition.names ∪ (thenBranch.names ∪ elseBranch.names)
  | .loop condition body => condition.names ∪ body.names
  | .misplaced _ => ∅

/-- The names that statements mention. -/
def Stmt.allNames : List Stmt → Set String
  | [] => ∅
  | s :: rest => s.names ∪ Stmt.allNames rest

end

/-! ## Names of a set, and literals -/

/-- What both of two runs can show: a value, or whatever it is if their traces are kept at the same
level. -/
def Shown (same : Prop) (v : Option Value) : Prop := same ∨ v.isSome = true

/-- The expression mentions names of the set only, and its literals can be shown. -/
def Expr.Over (names : Set String) (same : Prop) : Expr → Prop
  | .literal value => Shown same value
  | .grouping inner => inner.Over names same
  | .unary _ right => right.Over names same
  | .binary left _ right => left.Over names same ∧ right.Over names same
  | .logical left _ right => left.Over names same ∧ right.Over names same
  | .reference name => name.lexeme ∈ names
  | .assign name value => name.lexeme ∈ names ∧ value.Over names same
  | .misplaced _ => True

mutual

/-- The statement mentions names of the set only, and its literals can be shown. -/
def Stmt.Over (names : Set String) (same : Prop) : Stmt → Prop
  | .expression inner => inner.Over names same
  | .print inner => inner.Over names same
  | .declaration name none => name.lexeme ∈ names
  | .declaration name (some initializer) => name.lexeme ∈ names ∧ initializer.Over names same
  | .block body => Stmt.AllOver names same body
  | .branch condition thenBranch none => condition.Over names same ∧ thenBranch.Over names same
  | .branch condition thenBranch (some elseBranch) =>
    condition.Over names same ∧ thenBranch.Over names same ∧ elseBranch.Over names same
  | .loop condition body => condition.Over names same ∧ body.Over names same
  | .misplaced _ => True

/-- The statements mention names of the set only, and their literals can be shown. -/
def Stmt.AllOver (names : Set String) (same : Prop) : List Stmt → Prop
  | [] => True
  | s :: rest => s.Over names same ∧ Stmt.AllOver names same rest

end

variable {names : Set String} {same : Prop} {ts : List Token}

/-- An expression is over any set with the names that it mentions, if anything can be shown or if it
is drawn from tokens. -/
theorem Expr.over {e : Expr} (hnames : e.names ⊆ names) (hshown : same ∨ e.Drawn ts) :
    e.Over names same := by
  induction e with
  | literal value => exact hshown
  | grouping inner ih => exact ih hnames hshown
  | unary operator right ih => exact ih hnames (hshown.imp_right fun h => h.2.2)
  | binary left operator right ihLeft ihRight =>
    obtain ⟨hleft, hright⟩ := Set.union_subset_iff.1 hnames
    exact ⟨ihLeft hleft (hshown.imp_right fun h => h.1),
      ihRight hright (hshown.imp_right fun h => h.2.2)⟩
  | logical left operator right ihLeft ihRight =>
    obtain ⟨hleft, hright⟩ := Set.union_subset_iff.1 hnames
    exact ⟨ihLeft hleft (hshown.imp_right fun h => h.1),
      ihRight hright (hshown.imp_right fun h => h.2.2)⟩
  | reference name => exact Set.singleton_subset_iff.1 hnames
  | assign name value ih =>
    obtain ⟨hname, hvalue⟩ := Set.insert_subset_iff.1 hnames
    exact ⟨hname, ih hvalue (hshown.imp_right fun h => h.2)⟩
  | misplaced node => trivial

mutual

/-- A statement is over any set with the names that it mentions, if anything can be shown or if it
is drawn from tokens. -/
theorem Stmt.over : ∀ s : Stmt, s.names ⊆ names → same ∨ s.Drawn ts → s.Over names same
  | .expression _, hnames, hshown => Expr.over hnames hshown
  | .print _, hnames, hshown => Expr.over hnames hshown
  | .declaration _ none, hnames, _ => Set.singleton_subset_iff.1 hnames
  | .declaration _ (some _), hnames, hshown => by
    obtain ⟨hname, hinitializer⟩ := Set.insert_subset_iff.1 hnames
    exact ⟨hname, Expr.over hinitializer (hshown.imp_right fun h => h.2)⟩
  | .block body, hnames, hshown => Stmt.allOver body hnames hshown
  | .branch _ thenBranch none, hnames, hshown => by
    obtain ⟨hcondition, hthen⟩ := Set.union_subset_iff.1 hnames
    exact ⟨Expr.over hcondition (hshown.imp_right fun h => h.1),
      Stmt.over thenBranch hthen (hshown.imp_right fun h => h.2)⟩
  | .branch _ thenBranch (some elseBranch), hnames, hshown => by
    obtain ⟨hcondition, hbranches⟩ := Set.union_subset_iff.1 hnames
    obtain ⟨hthen, helse⟩ := Set.union_subset_iff.1 hbranches
    exact ⟨Expr.over hcondition (hshown.imp_right fun h => h.1),
      Stmt.over thenBranch hthen (hshown.imp_right fun h => h.2.1),
      Stmt.over elseBranch helse (hshown.imp_right fun h => h.2.2)⟩
  | .loop _ body, hnames, hshown => by
    obtain ⟨hcondition, hbody⟩ := Set.union_subset_iff.1 hnames
    exact ⟨Expr.over hcondition (hshown.imp_right fun h => h.1),
      Stmt.over body hbody (hshown.imp_right fun h => h.2)⟩
  | .misplaced _, _, _ => trivial

/-- **Statements are over any set with the names that they mention**, if anything can be shown or if
they are drawn from tokens. -/
theorem Stmt.allOver : ∀ ss : List Stmt, Stmt.allNames ss ⊆ names → same ∨ Stmt.AllDrawn ts ss →
    Stmt.AllOver names same ss
  | [], _, _ => trivial
  | s :: rest, hnames, hshown => by
    obtain ⟨hs, hrest⟩ := Set.union_subset_iff.1 hnames
    exact ⟨Stmt.over s hs (hshown.imp_right fun h => h.1),
      Stmt.allOver rest hrest (hshown.imp_right fun h => h.2)⟩

end

/-- Every expression mentions some names or other. -/
theorem Expr.over_univ (e : Expr) : e.Over Set.univ True := by
  have hshown : True ∨ e.Drawn [] := .inl trivial
  exact Expr.over (Set.subset_univ _) hshown

/-- Every statement mentions some names or other. -/
theorem Stmt.over_univ (s : Stmt) : s.Over Set.univ True := by
  have hshown : True ∨ s.Drawn [] := .inl trivial
  exact Stmt.over s (Set.subset_univ _) hshown

/-- All statements mention some names or other. -/
theorem Stmt.allOver_univ (ss : List Stmt) : Stmt.AllOver Set.univ True ss := by
  have hshown : True ∨ Stmt.AllDrawn [] ss := .inl trivial
  exact Stmt.allOver ss (Set.subset_univ _) hshown

end Lox
