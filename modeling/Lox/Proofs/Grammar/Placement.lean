import Lox.Proofs.Grammar.Reading

/-! # Where declarations stand

The grammar has declarations in programs and in blocks, and only statements as branches and as the
bodies of loops. Hence no statement but a declaration can bind a name in the scope that it is
executed in. Trees assembled by hand need not be like that.

* **`Grammar.ReadAs`** — the statements that a list of tokens is read as;
* **`Stmt.Readable`** — a statement that is read at the front of some tokens;
* **`Stmt.declares`** — whether a statement may bind a name in the scope that it is executed in;
* **`Stmt.Readable.declares_eq_false`** — a readable statement that is no declaration does not. -/

namespace Lox

/-! ## Statements that are read -/

/-- **A list of tokens is read as statements**: a cursor in front of it answers them. -/
def Grammar.ReadAs (ts : List Token) (statements : List Stmt) : Prop :=
  ∃ ledger c, Cursor.readProgram { tokens := ts, ledger := ledger } = .ok (some statements) c

/-- Tokens are read as statements iff they start with a program of these statements, in front of an
end token. -/
theorem Grammar.readAs_iff {ts : List Token} {statements : List Stmt} :
    ReadAs ts statements ↔ ∃ p : Surface.Program, ∃ rest, ts = p.tokens ++ rest ∧
      p.desugar = statements ∧ Surface.Meets [.endOfInput] rest := by
  constructor
  · rintro ⟨ledger, c, hread⟩
    obtain ⟨p, rest, htokens, hdesugar, hmeets, -⟩ := Cursor.readProgram_eq_some_iff.1 hread
    exact ⟨p, rest, htokens, hdesugar, hmeets⟩
  · rintro ⟨p, rest, htokens, hdesugar, hmeets⟩
    exact ⟨{}, _, Cursor.readProgram_eq_some_iff.2 ⟨p, rest, htokens, hdesugar, hmeets, rfl⟩⟩

/-- A declaration without an initializer is read as one. -/
theorem Grammar.readAs_declaration (word : Surface.Mark (.keyword .varWord))
    (name : Surface.Mark .identifier) (closing : Surface.Mark .semicolon)
    (eof : Surface.Mark .endOfInput) :
    ReadAs [word.token, name.token, closing.token, eof.token] [.declaration name.token none] := by
  have hproper : Surface.Declaration.AllProper [.binding ⟨word, name, none, closing⟩] :=
    ⟨trivial, trivial⟩
  exact readAs_iff.2 ⟨⟨_, hproper⟩, [eof.token], rfl, rfl, eof.kind_mem⟩

/-- **A statement is readable** if the rule for declarations reads it at the front of some tokens,
be they a program, or a part of one. -/
def Stmt.Readable (s : Stmt) : Prop :=
  ∃ ts rest, Grammar.declaration ts.length ts = .ok s rest

/-- A statement is readable iff it is the program tree of a declaration in which every `else`
belongs to the nearest conditional that can take it. -/
theorem Stmt.readable_iff {s : Stmt} :
    s.Readable ↔ ∃ d : Surface.Declaration, d.Proper ∧ d.desugar = s := by
  have hreads : ∀ ts rest, Grammar.declaration ts.length ts = .ok s rest ↔
      ∃ d : Surface.Declaration, d.Spans ts rest ∧ d.desugar = s :=
    fun ts => Surface.reads_declaration ts.length ts (Nat.le_refl _) s
  constructor
  · rintro ⟨ts, rest, h⟩
    obtain ⟨d, hspans, hdesugar⟩ := (hreads ts rest).1 h
    exact ⟨d, hspans.proper, hdesugar⟩
  · rintro ⟨d, hproper, hdesugar⟩
    -- no `else` stands behind the declaration if the end token does
    let eof : Token := ⟨.endOfInput, "", none, 0⟩
    have hstops : Stops [.keyword .elseWord] [eof] := by simp [eof]
    have hspans : d.Spans (d.tokens ++ [eof]) [eof] := ⟨rfl, hproper, fun _ => hstops⟩
    exact ⟨_, _, (hreads _ _).2 ⟨d, hspans, hdesugar⟩⟩

/-- The program trees of proper declarations are readable. -/
theorem Surface.readable_of_mem_desugarAll {ds : List Declaration} (h : Declaration.AllProper ds)
    {s : Stmt} (hs : s ∈ Declaration.desugarAll ds) : s.Readable := by
  induction ds with
  | nil => cases hs
  | cons d ds ih =>
    rcases List.mem_cons.1 hs with rfl | hs
    · exact Stmt.readable_iff.2 ⟨d, h.1, rfl⟩
    · exact ih h.2 hs

/-- **The statements that tokens are read as** are readable. -/
theorem Grammar.ReadAs.readable {ts : List Token} {statements : List Stmt}
    (h : ReadAs ts statements) {s : Stmt} (hs : s ∈ statements) : s.Readable := by
  obtain ⟨p, -, -, rfl, -⟩ := readAs_iff.1 h
  exact Surface.readable_of_mem_desugarAll p.proper hs

/-! ## Statements that declare -/

/-- Whether a statement may bind a name in the scope that it is executed in: it is a declaration, or
a branch or a loop with one in it that no block is around. -/
def Stmt.declares : Stmt → Bool
  | .declaration .. => true
  | .branch _ thenBranch none => thenBranch.declares
  | .branch _ thenBranch (some elseBranch) => thenBranch.declares || elseBranch.declares
  | .loop _ body => body.declares
  | .expression _ | .print _ | .block _ | .misplaced _ => false

namespace Surface

/-- A round of a `for` loop does not declare a name if the body does not. -/
theorem declares_withIncrement {body : Stmt} (h : body.declares = false)
    (increment : Option Expression) : (withIncrement increment body).declares = false := by
  cases increment with
  | none => exact h
  | some e => rfl

/-- A `for` loop does not declare a name if its body does not. -/
theorem declares_forLoop {initializer : Option Stmt} {condition increment : Option Expression}
    {body : Stmt} (h : body.declares = false) :
    (withInitializer initializer
      (.loop (conditionOrTrue condition) (withIncrement increment body))).declares = false := by
  cases initializer with
  | some s => rfl
  | none => exact declares_withIncrement h increment

/-- The program tree of a statement declares no name. -/
theorem Statement.declares_desugar : ∀ s : Statement, s.desugar.declares = false
  | .forLoop _ _ _ _ _ _ _ body => declares_forLoop (Statement.declares_desugar body)
  | .branch _ _ _ _ thenBranch => Statement.declares_desugar thenBranch
  | .branchElse _ _ _ _ thenBranch _ elseBranch => by
    rw [Statement.desugar, Stmt.declares, Statement.declares_desugar thenBranch,
      Statement.declares_desugar elseBranch, Bool.false_or]
  | .whileLoop _ _ _ _ body => Statement.declares_desugar body
  | .print .. | .block .. | .expression _ => rfl

end Surface

/-- **A readable statement that is no declaration** declares no name. -/
theorem Stmt.Readable.declares_eq_false {s : Stmt} (h : s.Readable)
    (hs : ∀ name initializer, s ≠ .declaration name initializer) : s.declares = false := by
  obtain ⟨d, -, rfl⟩ := Stmt.readable_iff.1 h
  cases d with
  | binding d => exact absurd rfl (hs d.name.token (d.initializer.map fun p => p.2.expr))
  | statement s => exact s.declares_desugar

end Lox
