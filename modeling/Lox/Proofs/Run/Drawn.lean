import Lox.Proofs.Grammar.Built

/-! # Program trees drawn from tokens

The trees that are read hold tokens that were read, each one of a kind that its place allows, and
every literal has a value. Trees assembled by hand need not be like that.

* **`Expr.Drawn`**, **`Stmt.Drawn`** — a tree over the tokens of a list;
* **`Surface.drawn_desugarAll`** — the statements of a program are drawn from its tokens. -/

namespace Lox

open Surface

/-- The expression is built over tokens of the list, each of a kind that its place allows, and its
literals have values. -/
def Expr.Drawn (ts : List Token) : Expr → Prop
  | .literal value => value.isSome = true
  | .grouping inner => inner.Drawn ts
  | .unary operator right => operator ∈ ts ∧ operator.kind ∈ signKinds ∧ right.Drawn ts
  | .binary left operator right =>
    left.Drawn ts ∧ (operator ∈ ts ∧ operator.kind ∈ binaryKinds) ∧ right.Drawn ts
  | .logical left operator right => left.Drawn ts ∧ operator ∈ ts ∧ right.Drawn ts
  | .reference name => name ∈ ts ∧ name.kind = .identifier
  | .assign name value => (name ∈ ts ∧ name.kind = .identifier) ∧ value.Drawn ts
  | .misplaced _ => False

mutual

/-- The expressions of the statement are drawn from the tokens of the list, and so are the names it
declares. -/
def Stmt.Drawn (ts : List Token) : Stmt → Prop
  | .expression inner => inner.Drawn ts
  | .print inner => inner.Drawn ts
  | .declaration name none => name ∈ ts ∧ name.kind = .identifier
  | .declaration name (some initializer) =>
    (name ∈ ts ∧ name.kind = .identifier) ∧ initializer.Drawn ts
  | .block body => Stmt.AllDrawn ts body
  | .branch condition thenBranch none => condition.Drawn ts ∧ thenBranch.Drawn ts
  | .branch condition thenBranch (some elseBranch) =>
    condition.Drawn ts ∧ thenBranch.Drawn ts ∧ elseBranch.Drawn ts
  | .loop condition body => condition.Drawn ts ∧ body.Drawn ts
  | .misplaced _ => False

/-- The statements are drawn from the tokens of the list. -/
def Stmt.AllDrawn (ts : List Token) : List Stmt → Prop
  | [] => True
  | s :: rest => s.Drawn ts ∧ Stmt.AllDrawn ts rest

end

/-- Statements are drawn from tokens one by one. -/
theorem Stmt.allDrawn_iff {ts : List Token} {ss : List Stmt} :
    Stmt.AllDrawn ts ss ↔ ∀ s ∈ ss, s.Drawn ts := by
  induction ss with
  | nil => simp [Stmt.AllDrawn]
  | cons s ss ih => simp [Stmt.AllDrawn, ih]

namespace Surface

/-- The numbers and strings among the tokens have their literals. -/
def HaveLiterals (ts : List Token) : Prop :=
  ∀ t ∈ ts, t.kind = .number ∨ t.kind = .string → t.literal.isSome = true

/-- A literal token has a value if numbers and strings have one. -/
theorem isSome_literalValue {t : Token} (hkind : t.kind ∈ literalKinds)
    (ht : t.kind = .number ∨ t.kind = .string → t.literal.isSome = true) :
    (literalValue t).isSome = true := by
  simp only [literalKinds, List.mem_cons, List.not_mem_nil, or_false] at hkind
  unfold literalValue
  -- a number and a string have the literal of their token, the three words their own
  rcases hkind with h | h | h | h | h
  · simpa [h] using ht (.inl h)
  · simpa [h] using ht (.inr h)
  all_goals simp [h]

end Surface

/-! ## Trees built from tokens of a list -/

section

variable {ts : List Token}

/-- An expression that is built from tokens of a list and from literals with values is drawn from
that list. -/
theorem Expr.Built.drawn {e : Expr} (h : e.Built (· ∈ ts) (·.isSome = true)) : e.Drawn ts := by
  induction e with
  | literal | reference | misplaced => exact h
  | grouping inner ih => exact ih h
  | unary operator right ih => exact ⟨h.1.1, h.1.2, ih h.2⟩
  | binary left operator right ihLeft ihRight => exact ⟨ihLeft h.1, h.2.1, ihRight h.2.2⟩
  | logical left operator right ihLeft ihRight => exact ⟨ihLeft h.1, h.2.1.1, ihRight h.2.2⟩
  | assign name value ih => exact ⟨h.1, ih h.2⟩

mutual

/-- A statement that is built from tokens of a list and from literals with values is drawn from that
list. -/
theorem Stmt.Built.drawn : ∀ {s : Stmt}, s.Built (· ∈ ts) (·.isSome = true) → s.Drawn ts
  | .expression _, h | .print _, h => Expr.Built.drawn h
  | .declaration _ none, h => h
  | .declaration _ (some _), h => ⟨h.1, h.2.drawn⟩
  | .block _, h => Stmt.AllBuilt.drawn h
  | .branch _ _ none, h => ⟨h.1.drawn, Stmt.Built.drawn h.2⟩
  | .branch _ _ (some _), h => ⟨h.1.drawn, Stmt.Built.drawn h.2.1, Stmt.Built.drawn h.2.2⟩
  | .loop _ _, h => ⟨h.1.drawn, Stmt.Built.drawn h.2⟩
  | .misplaced _, h => h

/-- Statements that are built from tokens of a list and from literals with values are drawn from
that list. -/
theorem Stmt.AllBuilt.drawn :
    ∀ {ss : List Stmt}, Stmt.AllBuilt (· ∈ ts) (·.isSome = true) ss → Stmt.AllDrawn ts ss
  | [], _ => trivial
  | _ :: _, h => ⟨Stmt.Built.drawn h.1, Stmt.AllBuilt.drawn h.2⟩

end

/-- **The program trees of declarations are drawn from their tokens.** -/
theorem Surface.drawn_desugarAll (hts : HaveLiterals ts) (ds : List Declaration)
    (hsub : Declaration.allTokens ds ⊆ ts) : Stmt.AllDrawn ts (Declaration.desugarAll ds) := by
  have hsupplies : Supplies (· ∈ ts) (·.isSome = true) (Declaration.allTokens ds) :=
    fun t ht => ⟨hsub ht, fun hkind => isSome_literalValue hkind (hts t (hsub ht))⟩
  exact Stmt.AllBuilt.drawn (built_desugarAll Option.isSome_some ds hsupplies)

end

end Lox
