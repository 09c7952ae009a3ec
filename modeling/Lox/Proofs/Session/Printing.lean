import Lox.Proofs.Session.Soundness
import Lox.Proofs.Tree.Printing
import Lox.Proofs.Tree.Rereading

/-! # Printed programs are unambiguous

A program that is read is always printed. If there are no strings in it and its numbers are finite,
what is printed says what was read, but for the lines.

* **`Source.Plain`** — sources without strings, whose numbers are finite;
* **`Source.allBuilt_statements`** — the statements of such a source are legible;
* **`Session.printed_unambiguous`** — hence equal texts are those of equal programs. -/

namespace Lox

open Surface

/-- A value that is a number is finite. -/
def Value.isFinite : Value → Bool
  | number n => n.isFinite
  | string _ | boolean _ | nil => true

namespace Source

variable {source : Source}

/-- **No token of the source is a string, and the numbers among them are finite.** -/
def Plain (source : Source) : Prop :=
  ∀ t ∈ source.tokens, t.kind ≠ .string ∧ ∀ v ∈ t.literal, v.isFinite = true

/-- The tokens of a source without lexical errors are read from it. -/
theorem read_of_mem_body (h : source.lexicalErrors = []) {t : Token} (ht : t ∈ source.body) :
    t.Read := by
  have herrors : errorsOf 1 (pieces source) = [] := by rwa [← toList_errors_scan]
  exact (Spells.of_errorsOf_eq_nil herrors).spelled_of_mem (List.mem_map_of_mem ht)

/-- The literals in a source without strings, whose numbers are finite, are legible. -/
theorem Plain.legible (h : source.Plain) {t : Token} (ht : t ∈ source.body)
    (hkind : t.kind ∈ literalKinds) : Legible (literalValue t) := by
  obtain ⟨hstring, hfinite⟩ := h t (tokens_eq source ▸ List.mem_append_left _ ht)
  simp only [literalKinds, List.mem_cons, List.not_mem_nil, or_false] at hkind
  unfold literalValue
  rcases hkind with hkind | hkind | hkind | hkind | hkind
  · obtain ⟨n, hn⟩ := (scanned_of_mem_body ht).number hkind
    rw [hkind, hn]
    exact hfinite _ hn
  · exact absurd hkind hstring
  all_goals
    rw [hkind]
    trivial

/-- **The statements of a source are legible** if there are no strings in it and its numbers are
finite. -/
theorem allBuilt_statements (h : source.Accepted) (hplain : source.Plain) :
    Stmt.AllBuilt Token.Read Legible source.statements := by
  obtain ⟨p, htokens, hdesugar, -⟩ := exists_program_of_syntaxErrors_eq_nil h.2
  rw [← hdesugar]
  refine built_desugarAll trivial _ fun t ht => ?_
  have hbody : t ∈ source.body := htokens ▸ ht
  exact ⟨read_of_mem_body h.1 hbody, hplain.legible hbody⟩

end Source

namespace Session

/-- **Printed programs are unambiguous.** Every statement of a program that is read is printed. If
neither of two such programs has a string in it, if all their numbers are finite, and if the same
texts are printed for them, then they are the same but for the lines of their tokens. -/
theorem printed_unambiguous {source₁ source₂ : Source} {statements₁ statements₂ : List Stmt}
    {s₁ s₂ s₁' s₂' : Session} (hread₁ : readProgram source₁ s₁ = .ok (some statements₁) s₁')
    (hread₂ : readProgram source₂ s₂ = .ok (some statements₂) s₂')
    (hplain₁ : source₁.Plain) (hplain₂ : source₂.Plain) :
    ∃ texts₁ texts₂, statements₁.mapM Stmt.printed = .ok texts₁ ∧
      statements₂.mapM Stmt.printed = .ok texts₂ ∧
      (texts₁ = texts₂ →
        Stmt.allMoved (fun _ => 0) statements₁ = Stmt.allMoved (fun _ => 0) statements₂) := by
  obtain ⟨⟨-, haccepted₁⟩, rfl, -⟩ := readProgram_eq_some_iff.1 hread₁
  obtain ⟨⟨-, haccepted₂⟩, rfl, -⟩ := readProgram_eq_some_iff.1 hread₂
  exact ⟨_, _, Stmt.mapM_printed_eq (Source.allDrawn_statements haccepted₁.2),
    Stmt.mapM_printed_eq (Source.allDrawn_statements haccepted₂.2),
    (Source.allBuilt_statements haccepted₁ hplain₁).unlined_eq_of_texts_eq
      (Source.allBuilt_statements haccepted₂ hplain₂)⟩

/-- A sum with a negated part and a name that is like the head of a node, on one line and on two. -/
theorem printed_unambiguous_of_sum :
    let source₁ : Source := "print -2 + group;".toList
    let source₂ : Source := "print -2\n+ group;".toList
    (source₁.Plain ∧ source₂.Plain) ∧
      ∃ s₁ s₂, readProgram source₁ (new 0) = .ok (some source₁.statements) s₁ ∧
        readProgram source₂ (new 0) = .ok (some source₂.statements) s₂ ∧
        source₁.statements.mapM Stmt.printed = .ok ["(print (+ (- 2) group))"] ∧
        source₂.statements.mapM Stmt.printed = .ok ["(print (+ (- 2) group))"] ∧
        Stmt.allMoved (fun _ => 0) source₁.statements =
          Stmt.allMoved (fun _ => 0) source₂.statements := by
  intro source₁ source₂
  have hplain₁ : source₁.Plain := by unfold Source.Plain; decide +kernel
  have hplain₂ : source₂.Plain := by unfold Source.Plain; decide +kernel
  have hread₁ : readProgram source₁ (new 0) =
      .ok (some source₁.statements) ((new 0).afterReading source₁) :=
    readProgram_eq_some_iff.2 ⟨⟨rfl, by decide +kernel, by decide +kernel⟩, rfl, rfl⟩
  have hread₂ : readProgram source₂ (new 0) =
      .ok (some source₂.statements) ((new 0).afterReading source₂) :=
    readProgram_eq_some_iff.2 ⟨⟨rfl, by decide +kernel, by decide +kernel⟩, rfl, rfl⟩
  have hprinted₁ : source₁.statements.mapM Stmt.printed =
      .ok ["(print (+ (- 2) group))"] := by decide +kernel
  have hprinted₂ : source₂.statements.mapM Stmt.printed =
      .ok ["(print (+ (- 2) group))"] := by decide +kernel
  obtain ⟨texts₁, texts₂, htexts₁, htexts₂, hsame⟩ :=
    printed_unambiguous hread₁ hread₂ hplain₁ hplain₂
  refine ⟨⟨hplain₁, hplain₂⟩, _, _, hread₁, hread₂, hprinted₁, hprinted₂, hsame ?_⟩
  rw [htexts₁] at hprinted₁
  rw [htexts₂] at hprinted₂
  exact (Except.ok.inj hprinted₁).trans (Except.ok.inj hprinted₂).symm

end Session

end Lox
