import Lox.Proofs.Grammar.Contexts
import Lox.Proofs.Grammar.Reading
import Lox.Proofs.Run.Blind

/-! # Redundant parentheses

Parentheses may be put around any expression of a program, in any place that the grammar has for
one. The tokens are read as before, but for the group around that expression, and they run as
before: a group answers what is in it, and whatever could stop it has stopped what is in it.

* **`Expr.ungrouped`** — an expression without its groups;
* **`Run.keepsStep_ungrouped`** — an expression is evaluated in step with what it is without them;
* **`Run.endAlike_of_ungrouped_eq`** — programs that differ in their groups only end alike;
* **`Cursor.readProgram_parenthesized`** — parentheses change neither what the rest of a program is
  read as nor how the program runs. -/

namespace Lox

/-! ## Expressions without groups -/

namespace Expr

/-- An expression without its groups. -/
def ungrouped : Expr → Expr
  | literal value => .literal value
  | grouping inner => inner.ungrouped
  | unary operator right => .unary operator right.ungrouped
  | binary left operator right => .binary left.ungrouped operator right.ungrouped
  | logical left operator right => .logical left.ungrouped operator right.ungrouped
  | reference name => .reference name
  | assign name value => .assign name value.ungrouped
  | misplaced node => .misplaced node

end Expr

/-! ## Running without groups -/

namespace Run

variable {f : Int → Int} {N : Set String} {same : Prop} {Q : Machine → Machine → Prop}

/-- A value that was noted is one that can be noted again. -/
theorem exists_noted_again {kind : NodeKind} {v w : Option Value} {m mid : Machine}
    (h : noted kind v m = .ok w mid) (kind' : NodeKind) :
    ∃ t : Trace, t.level = mid.trace.level ∧ noted kind' w mid = .ok w { mid with trace := t } := by
  cases v with
  | some v =>
    obtain ⟨t, -, hres⟩ := exists_noted_eq_ok kind v m
    rw [hres] at h
    cases h
    exact exists_noted_eq_ok kind' v _
  | none =>
    change (if keepsLevel m.trace.level 4 = true then _ else _ : Run (Option Value)) m = _ at h
    -- no value can be noted, so the entry was not kept, and another one is not either
    split at h
    · cases h
    · next hkept =>
      cases h
      refine ⟨m.trace, rfl, ?_⟩
      show (if keepsLevel m.trace.level 4 = true then _ else _ : Run (Option Value)) m = _
      rw [if_neg hkept]
      rfl

/-- What an expression has answered was noted. -/
theorem exists_noted_of_evaluate {e : Expr} {v : Option Value} {m mid : Machine}
    (h : evaluate e m = .ok v mid) : ∃ kind w m', noted kind w m' = .ok v mid := by
  cases e with
  | literal value => exact ⟨_, _, _, h⟩
  | grouping | reference =>
    obtain ⟨_, _, -, hnoted⟩ := bind_eq_ok_iff.1 h
    exact ⟨_, _, _, hnoted⟩
  | unary =>
    obtain ⟨_, _, -, h⟩ := bind_eq_ok_iff.1 h
    obtain ⟨_, _, -, hnoted⟩ := bind_eq_ok_iff.1 h
    exact ⟨_, _, _, hnoted⟩
  | binary =>
    obtain ⟨_, _, -, h⟩ := bind_eq_ok_iff.1 h
    obtain ⟨_, _, -, h⟩ := bind_eq_ok_iff.1 h
    obtain ⟨_, _, -, hnoted⟩ := bind_eq_ok_iff.1 h
    exact ⟨_, _, _, hnoted⟩
  | logical left operator right =>
    obtain ⟨w, mid', -, h⟩ := bind_eq_ok_iff.1 h
    change (if decides operator w = true then pure w >>= noted .logical
      else evaluate right >>= noted .logical : Run (Option Value)) mid' = _ at h
    split at h
    · obtain ⟨_, _, -, hnoted⟩ := bind_eq_ok_iff.1 h
      exact ⟨_, _, _, hnoted⟩
    · obtain ⟨_, _, -, hnoted⟩ := bind_eq_ok_iff.1 h
      exact ⟨_, _, _, hnoted⟩
  | assign =>
    obtain ⟨_, _, -, h⟩ := bind_eq_ok_iff.1 h
    obtain ⟨_, _, -, h⟩ := bind_eq_ok_iff.1 h
    obtain ⟨_, _, -, hnoted⟩ := bind_eq_ok_iff.1 h
    exact ⟨_, _, _, hnoted⟩
  | misplaced => cases h

/-- **A group is evaluated in step with what is in it**: what was answered there can be answered
again. -/
theorem inStep_evaluate_grouping_left (h : Link N same Q) {e e' : Expr}
    (he : InStep f Q (Shown same) (evaluate e) (evaluate e')) :
    InStep f Q (Shown same) (evaluate (.grouping e)) (evaluate e') := by
  intro m m' hq
  show Ended f Q (Shown same) ((evaluate e >>= noted .grouping) m) (evaluate e' m')
  rcases (he m m' hq).ok_or_error with
    ⟨v, mid, mid', hres, hres', hv, hmid⟩ | ⟨stop, mid, mid', hres, hres', hmid⟩
  · obtain ⟨kind, w, start, hnoted⟩ := exists_noted_of_evaluate hres
    obtain ⟨t, ht, hagain⟩ := exists_noted_again hnoted .grouping
    rw [bind_eq_of_eq_ok hres, hagain, hres']
    exact ⟨rfl, hv, h.trace hmid ht rfl⟩
  · rw [bind_eq_error_iff.2 (.inl hres), hres']
    exact ⟨rfl, hmid⟩

/-- **Groups make no difference to an expression.** -/
theorem keepsStep_ungrouped : KeepsStep id N same Expr.ungrouped := by
  intro Q h e he
  induction e with
  | literal value => exact inStep_noted h _ he
  | grouping inner ih => exact inStep_evaluate_grouping_left h (ih he)
  | unary operator right ih => exact inStep_evaluate_unary h operator (ih he)
  | binary left operator right ihLeft ihRight =>
    exact inStep_evaluate_binary h operator (ihLeft he.1) (ihRight he.2)
  | logical left operator right ihLeft ihRight =>
    exact inStep_evaluate_logical h operator (ihLeft he.1) (ihRight he.2)
  | reference name => exact inStep_evaluate_reference h he
  | assign name inner ih => exact inStep_evaluate_assign h he.1 (ih he.2)
  | misplaced node => exact inStep_throw _

/-- Groups make no difference to a program. -/
theorem mirrors_program_ungrouped (fuel : Nat) (statements : List Stmt) :
    Mirrors id (program fuel statements)
      (program fuel (Stmt.allMapped id Expr.ungrouped statements)) := by
  have hstep := inStep_foldlM_execute_mapped keepsStep_ungrouped fuel bond_alike
    keptByDefining_alike (Stmt.allOver_univ statements) none
  rw [Token.moved_id] at hstep
  exact hstep.mirrors

/-- Two runs that both end alike to a third one end alike to each other. -/
theorem EndAlike.join {α : Type} {r r' r'' : EStateM.Result Stop Machine α} (h : EndAlike r r'')
    (h' : EndAlike r' r'') : EndAlike r r' := by
  cases r with
  | ok a m =>
    cases r'' with
    | error => exact h.elim
    | ok =>
      cases r' with
      | ok => exact ⟨h.1.trans h'.1.symm, h.2.trans h'.2.symm⟩
      | error => exact h'.elim
  | error stop m =>
    cases r'' with
    | ok => exact h.elim
    | error =>
      cases r' with
      | ok => exact h'.elim
      | error => exact ⟨h.1.trans h'.1.symm, h.2.trans h'.2.symm⟩

/-- **Programs that differ in their groups only end alike.** -/
theorem endAlike_of_ungrouped_eq {statements statements' : List Stmt}
    (h : Stmt.allMapped id Expr.ungrouped statements =
      Stmt.allMapped id Expr.ungrouped statements') (fuel : Nat) (m : Machine) :
    EndAlike (program fuel statements m) (program fuel statements' m) := by
  have hm : m.Alike m := ⟨rfl, rfl, rfl⟩
  have hends := (mirrors_program_ungrouped fuel statements m m hm).endAlike
  have hends' := (mirrors_program_ungrouped fuel statements' m m hm).endAlike
  rw [← h] at hends'
  exact hends.join hends'

end Run

/-! ## Groups in a place of a program -/

namespace Surface

variable {place form : ExprForm} {x y : Expr}

/-- Two expressions that differ in their groups only do so inside another one. -/
theorem ExprContext.ungrouped_plug (h : x.ungrouped = y.ungrouped) (k : ExprContext place form) :
    (k.plug x).ungrouped = (k.plug y).ungrouped := by
  induction k with
  | here => exact h
  | plain _ ih | operand _ ih | unsigned _ ih => exact ih
  | group _ _ _ ih => exact ih
  | assign _ _ _ ih | signed _ _ ih => rw [plug, plug, Expr.ungrouped, Expr.ungrouped, ih]
  | @joinLeft level _ _ _ ih | @joinRight level _ _ _ ih =>
    cases level <;> simp [plug, Level.combine, Expr.ungrouped, ih]

/-- Two expressions that differ in their groups only do so inside a program. -/
theorem ProgramContext.ungrouped_plug (h : x.ungrouped = y.ungrouped) (k : ProgramContext place) :
    Stmt.allMapped id Expr.ungrouped (k.plug x) = Stmt.allMapped id Expr.ungrouped (k.plug y) :=
  k.allMapped_plug fun c => c.ungrouped_plug h

end Surface

/-! ## Parentheses in a program -/

open Surface

/-- **Redundant parentheses are harmless.** Tokens that are read as statements start with one
program in front of an end token. Wherever it has an expression, parentheses may be put around the
tokens of that expression: they are read as the same statements with a group around it, and these
statements run alike on every machine. -/
theorem Cursor.readProgram_parenthesized {ts : List Token} {ledger : Ledger}
    {statements : List Stmt} {c : Cursor}
    (h : readProgram { tokens := ts, ledger } = .ok (some statements) c) :
    ∃! p : Program, ∃ rest, ts = p.tokens ++ rest ∧ Meets [.endOfInput] rest ∧
      p.desugar = statements ∧
      ∀ ⦃form : ExprForm⦄ (k : ProgramContext form) (e : ExprTree form),
        k.fill e = p.declarations →
          ts = k.front ++ (e.tokens ++ (k.back ++ rest)) ∧ statements = k.plug e.expr ∧
          ∀ (opening : Mark .leftParen) (closing : Mark .rightParen),
            let tokens := k.front ++
              opening.token :: (e.tokens ++ closing.token :: (k.back ++ rest))
            let grouped := k.plug (.grouping e.expr)
            readProgram { tokens, ledger } =
                .ok (some grouped) { tokens, position := c.position + 2, ledger } ∧
              ∀ (fuel : Nat) (m : Machine),
                Run.EndAlike (Run.program fuel statements m) (Run.program fuel grouped m) := by
  obtain ⟨p, rest, htokens, hdesugar, hmeets, rfl⟩ := readProgram_eq_some_iff.1 h
  change ts = p.tokens ++ rest at htokens
  refine ⟨p, ⟨rest, htokens, hmeets, hdesugar, ?_⟩, ?_⟩
  · intro form k e hfill
    have hfront : p.tokens = k.front ++ (e.tokens ++ k.back) := by
      rw [Program.tokens, ← hfill, k.tokens_fill]
    have hplug : statements = k.plug e.expr := by
      rw [← hdesugar, Program.desugar, ← hfill, k.desugar_fill]
    refine ⟨by simp [htokens, hfront], hplug, fun opening closing => ⟨?_, fun fuel m => ?_⟩⟩
    · -- the place is filled with the group, which is read there
      have hproper := (k.allProper_fill_iff e (ExprTree.parenthesized opening e closing)).1
        (hfill ▸ p.proper)
      refine readProgram_eq_some_iff.2 ⟨⟨_, hproper⟩, rest, ?_, ?_, hmeets, ?_⟩
      · simp [Program.tokens, k.tokens_fill, Cursor.rest]
      · simp [Program.desugar, k.desugar_fill]
      · simp [leave, htokens, hfront]
        omega
    · have hgroups : e.expr.ungrouped = (Expr.grouping e.expr).ungrouped := rfl
      rw [hplug]
      exact Run.endAlike_of_ungrouped_eq (k.ungrouped_plug hgroups) fuel m
  · -- the tokens up to the end token determine the declarations
    rintro p' ⟨rest', htokens', hmeets', -⟩
    obtain ⟨hdeclarations, -⟩ := Declaration.eq_of_allTokens_append (by decide) (by decide) _
      p'.proper p.proper hmeets' hmeets (htokens'.symm.trans htokens)
    exact Program.ext hdeclarations

/-- Parentheses around the product in `print a + b * c;`. -/
theorem Cursor.readProgram_parenthesized_product :
    let printWord : Token := ⟨.keyword .printWord, "print", none, 1⟩
    let a : Token := ⟨.identifier, "a", none, 1⟩
    let plus : Token := ⟨.plus, "+", none, 1⟩
    let opening : Token := ⟨.leftParen, "(", none, 1⟩
    let b : Token := ⟨.identifier, "b", none, 1⟩
    let star : Token := ⟨.star, "*", none, 1⟩
    let c : Token := ⟨.identifier, "c", none, 1⟩
    let closing : Token := ⟨.rightParen, ")", none, 1⟩
    let semicolon : Token := ⟨.semicolon, ";", none, 1⟩
    let eof : Token := ⟨.endOfInput, "", none, 1⟩
    let ts := [printWord, a, plus, b, star, c, semicolon, eof]
    let tokens := [printWord, a, plus, opening, b, star, c, closing, semicolon, eof]
    let product : Expr := .binary (.reference b) star (.reference c)
    let statements : List Stmt := [.print (.binary (.reference a) plus product)]
    let grouped : List Stmt := [.print (.binary (.reference a) plus (.grouping product))]
    readProgram ⟨ts, 0, .resumed, {}⟩ = .ok (some statements) ⟨ts, 7, .resumed, {}⟩ ∧
      readProgram ⟨tokens, 0, .resumed, {}⟩ = .ok (some grouped) ⟨tokens, 9, .resumed, {}⟩ ∧
        ∀ (fuel : Nat) (m : Machine),
          Run.EndAlike (Run.program fuel statements m) (Run.program fuel grouped m) := by
  intro printWord a plus opening b star c closing semicolon eof ts tokens product statements grouped
  have hread : readProgram ⟨ts, 0, .resumed, {}⟩ =
      .ok (some statements) ⟨ts, 7, .resumed, {}⟩ := rfl
  obtain ⟨p, ⟨rest, hts, hmeets, -, hplaces⟩, -⟩ := readProgram_parenthesized hread
  let e : ExprTree (.joined .factor) :=
    .join (.operand (.unsigned (.reference ⟨b, by decide⟩))) ⟨star, by decide⟩
      (.unsigned (.reference ⟨c, by decide⟩))
  let k : ProgramContext (.joined .factor) :=
    ⟨[], .statement (.print ⟨printWord, by decide⟩ (.plain (.operand (.operand (.operand (.operand
      (.joinRight (.operand (.operand (.unsigned (.reference ⟨a, by decide⟩)))) ⟨plus, by decide⟩
        .here)))))) ⟨semicolon, by decide⟩), []⟩
  -- the program that was read is the one with the product in this place
  have htokens : Declaration.allTokens (k.fill e) ++ [eof] =
      Declaration.allTokens p.declarations ++ rest := hts
  obtain ⟨hfill, rfl⟩ := Declaration.eq_of_allTokens_append (by decide) (by decide) (k.fill e)
    ⟨trivial, trivial⟩ p.proper (List.mem_singleton_self _) hmeets htokens
  obtain ⟨-, -, hgrouped⟩ := hplaces k e hfill
  exact ⟨hread, hgrouped ⟨opening, by decide⟩ ⟨closing, by decide⟩⟩

end Lox
