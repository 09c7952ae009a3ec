import Lox.Proofs.Source.LineNumbers
import Lox.Proofs.Source.Separation

/-! # Scanning restarts at line ends

A line end closes every piece in front of it but a string that is never closed, and nothing of what
was scanned before it is looked at behind it. So two sources with a line end between them have the
tokens and reports of both, those of the second one behind the lines of the first one.

* **`Source.pieces_joined`** — the pieces of two sources with a line end between them;
* **`Source.tokensOf_joined`**, **`Source.errorsOf_joined`** — hence their tokens and reports;
* **`Source.scan_restarts`** — what scanning lists. -/

namespace Lox.Source

variable {source₁ source₂ : Source}

/-- Two sources with a line end between them have the pieces of both, if no string of the first one
is left open. -/
theorem pieces_joined (h : ∀ p ∈ pieces source₁, p.kind ≠ .unterminated) :
    pieces (source₁ ++ '\n' :: source₂) = pieces source₁ ++ ⟨.blank, ['\n']⟩ :: pieces source₂ :=
  pieces_append_blank h (by decide) (fun _ _ _ => rfl) source₂

/-- The second of two sources with a line end between them starts on the line behind the first. -/
theorem lineAfter_add_lines_newline (source : Source) :
    lineAfter source + Piece.lines ⟨.blank, ['\n']⟩ = 1 + lineAfter source :=
  Nat.add_comm _ _

/-- **Two sources with a line end between them have the tokens of both**, the second ones behind the
lines of the first source. -/
theorem tokensOf_joined (h : ∀ p ∈ pieces source₁, p.kind ≠ .unterminated) :
    tokensOf 1 (pieces (source₁ ++ '\n' :: source₂)) = tokensOf 1 (pieces source₁) ++
      (tokensOf 1 (pieces source₂)).map (Token.moved (· + (lineAfter source₁ : Int))) := by
  rw [pieces_joined h, tokensOf_append, lineBehind_pieces, tokensOf, lineAfter_add_lines_newline,
    tokensOf_add]
  rfl

/-- **Two sources with a line end between them have the reports of both**, the second ones behind
the lines of the first source. -/
theorem errorsOf_joined (h : ∀ p ∈ pieces source₁, p.kind ≠ .unterminated) :
    errorsOf 1 (pieces (source₁ ++ '\n' :: source₂)) = errorsOf 1 (pieces source₁) ++
      (errorsOf 1 (pieces source₂)).map (LexicalError.moved (· + (lineAfter source₁ : Int))) := by
  rw [pieces_joined h, errorsOf_append, lineBehind_pieces, errorsOf, lineAfter_add_lines_newline,
    errorsOf_add]
  rfl

/-- The end token of two sources is that of the second one, behind the lines of the first one. -/
theorem endToken_joined (source₁ source₂ : Source) :
    endToken (source₁ ++ '\n' :: source₂) =
      (endToken source₂).moved (· + (lineAfter source₁ : Int)) := by
  have hline : lineAfter (source₁ ++ '\n' :: source₂) = lineAfter source₂ + lineAfter source₁ := by
    rw [lineAfter_append, List.count_cons_self, Nat.add_comm, Nat.add_comm _ 1]
    rfl
  rw [endToken_eq, endToken_eq, hline]
  simp [Token.moved]

/-- **Scanning restarts at line ends.** Where no string of a first source is left open, scanning it,
a line end and a second source lists the tokens of the first source without its end token, and then
all tokens of the second one, with as many lines added as the first source has: one, and another one
for each of its line ends. The reports are those of the first source, and then those of the second
one with as many lines added. -/
theorem scan_restarts (source₁ source₂ : Source)
    (h : ∀ e ∈ (scan source₁).errors.toList, e.kind ≠ .unterminatedString) :
    let below : Int → Int := (· + ((1 + source₁.count '\n' : Nat) : Int))
    let found := scan (source₁ ++ '\n' :: source₂)
    (∃ front eof, (scan source₁).tokens.toList = front ++ [eof] ∧ eof.kind = .endOfInput ∧
      (∀ t ∈ front, t.kind ≠ .endOfInput) ∧
      found.tokens.toList = front ++ (scan source₂).tokens.toList.map (Token.moved below)) ∧
    found.errors.toList = (scan source₁).errors.toList ++
      (scan source₂).errors.toList.map (LexicalError.moved below) := by
  intro below found
  rw [toList_errors_scan] at h
  have hclosed := kind_ne_unterminated h
  refine ⟨⟨tokensOf 1 (pieces source₁), endToken source₁, toList_tokens_scan source₁,
    kind_endToken source₁, fun t ht => ?_, ?_⟩, ?_⟩
  · exact (scanned_of_mem_tokensOf (fun _ hp => Piece.formed_of_mem_pieces hp) ht).kind_ne
  · rw [toList_tokens_scan, toList_tokens_scan, tokensOf_joined hclosed, endToken_joined,
      List.map_append, List.append_assoc]
    rfl
  · rw [toList_errors_scan, toList_errors_scan, toList_errors_scan, errorsOf_joined hclosed]
    rfl

/-- A source with a stray character and a number in front of a point, which the digit on the next
line does not go on. -/
theorem scan_restarts_behind_point :
    let source₁ : Source := "#\n1.".toList
    let source₂ : Source := "5 \"".toList
    (∀ e ∈ (scan source₁).errors.toList, e.kind ≠ .unterminatedString) ∧
    (scan (source₁ ++ '\n' :: source₂)).errors.toList =
      [⟨1, .unexpectedCharacter⟩, ⟨3, .unterminatedString⟩] ∧
    ∃ front eof, (scan source₁).tokens.toList = front ++ [eof] ∧ eof.kind = .endOfInput ∧
      (∀ t ∈ front, t.kind ≠ .endOfInput) ∧
      (scan (source₁ ++ '\n' :: source₂)).tokens.toList =
        front ++ (scan source₂).tokens.toList.map (Token.moved (· + (2 : Int))) := by
  intro source₁ source₂
  have hclosed : ∀ e ∈ (scan source₁).errors.toList, e.kind ≠ .unterminatedString := by
    decide +kernel
  obtain ⟨htokens, herrors⟩ := scan_restarts source₁ source₂ hclosed
  refine ⟨hclosed, ?_, htokens⟩
  rw [herrors]
  decide +kernel

end Lox.Source
