import Lox.Proofs.Session.Layout
import Lox.Proofs.Source.Slices

/-! # What a syntax error quotes

The message of a syntax error quotes the token that is blamed, by the bytes of the slice of the text
that it was cut from, each one as a character of its own. That is the slice itself exactly if the
slice is ASCII: all tokens are quoted as they are written, but for strings with other characters.

* **`Session.quotes_bytes`** — what a message quotes;
* **`Session.misquotes_accent`** — a string that is quoted as it is not written. -/

namespace Lox

namespace Source

/-- The token that a syntax error blames is that of a piece, unless it is the end token. -/
theorem exists_placed_of_syntaxErrors {source : Source} {e : SyntaxError}
    (h : source.syntaxErrors = [e]) (hkind : e.token.kind ≠ .endOfInput) :
    ∃ q ∈ placedPieces source, q.token? = some e.token := by
  have herror : Grammar.syntaxError? source.tokens = some e := by
    rw [syntaxErrors, Option.toList_eq_singleton_iff] at h
    exact h
  obtain ⟨i, back, hdrop, -⟩ := Grammar.exists_rejectsAt herror
  have hmem : e.token ∈ source.tokens :=
    List.mem_of_mem_drop (hdrop ▸ List.mem_cons_self)
  rw [tokens, toList_tokens_scan_eq, List.mem_append] at hmem
  rcases hmem with hmem | hmem
  · exact List.mem_filterMap.1 hmem
  · rw [List.mem_singleton.1 hmem] at hkind
    exact absurd rfl hkind

end Source

namespace Session

/-- **A syntax error quotes the bytes of a slice.** Take a text without lexical errors that is
rejected at a token other than the end token. Reading it reports one message, with the line of the
token. It quotes the slice of the text that the token was cut from, as its UTF-8 form, byte by byte.
That is the slice itself exactly if the slice is ASCII, as it is unless the token is a string. -/
theorem quotes_bytes {text : String} {e : SyntaxError}
    (hclean : (Source.ofText text).lexicalErrors = [])
    (hrejected : (Source.ofText text).syntaxErrors = [e]) (hkind : e.token.kind ≠ .endOfInput)
    (s : Session) :
    ∃ q ∈ placedPieces (Source.ofText text), q.token? = some e.token ∧
      ∃ slice s', q.Shows text slice ∧
        readProgram (Source.ofText text) s = .ok none s' ∧
        s'.ledger.messages = s.ledger.messages.push (renderReport e.token.line
          (" at '" ++ String.ofList (Source.ofText slice) ++ "'") e.kind.message) ∧
        (String.ofList (Source.ofText slice) = slice ↔ ∀ c ∈ slice.toList, c.toNat < 0x80) ∧
        (e.token.kind ≠ .string → String.ofList (Source.ofText slice) = slice) := by
  obtain ⟨q, hq, htoken⟩ := Source.exists_placed_of_syntaxErrors hrejected hkind
  obtain ⟨slice, hshows, hascii⟩ := Source.exists_shows hq htoken
  have hquoted : String.ofList (Source.ofText slice) = slice ↔
      ∀ c ∈ slice.toList, c.toNat < 0x80 := by
    rw [← Text.toBytes_eq_toList_iff, ← String.toList_inj, String.toList_ofList]
    rfl
  have hlexeme : e.token.lexeme = String.ofList (Source.ofText slice) := by
    obtain ⟨-, -, -, -, hpiece⟩ := hshows
    rw [← hpiece, Piece.text_eq_of_token? htoken, String.ofList_toList]
  have hmessages : Ledger.messagesOf (Source.ofText text) = [e.render] := by
    rw [Ledger.messagesOf, hclean, hrejected]
    rfl
  have herror : (s.ledger.reported (Source.ofText text)).hadError = true := by
    rw [Ledger.reported_eq, hmessages]
    simp
  refine ⟨q, hq, htoken, slice, s.afterReading (Source.ofText text), hshows, ?_, ?_, hquoted,
    fun h => hquoted.2 (hascii h)⟩
  · rw [readProgram_eq, if_pos herror]
  · show (s.ledger.reported (Source.ofText text)).messages = _
    rw [Ledger.reported_eq, hmessages, SyntaxError.render, if_neg hkind, hlexeme]
    simp

/-- A number behind an expression is quoted as it is written. -/
theorem quotes_bytes_of_number :
    let text := "print 1 2.50;"
    let e : SyntaxError := ⟨⟨.number, "2.50", some (.number 2.5), 1⟩, .unendedPrint⟩
    (Source.ofText text).lexicalErrors = [] ∧ (Source.ofText text).syntaxErrors = [e] ∧
      e.token.kind ≠ .endOfInput ∧
      ∃ slice s', readProgram (Source.ofText text) (new 0) = .ok none s' ∧
        s'.ledger.messages =
          #[renderReport 1 (" at '" ++ String.ofList (Source.ofText slice) ++ "'")
            "Expect ';' after value."] ∧
        String.ofList (Source.ofText slice) = slice := by
  intro text e
  have hclean : (Source.ofText text).lexicalErrors = [] := by decide +kernel
  have hrejected : (Source.ofText text).syntaxErrors = [e] := by decide +kernel
  have hkind : e.token.kind ≠ .endOfInput := by decide
  obtain ⟨-, -, -, slice, s', -, hread, hmessages, -, hquoted⟩ :=
    quotes_bytes hclean hrejected hkind (new 0)
  exact ⟨hclean, hrejected, hkind, slice, s', hread, hmessages, hquoted (by decide)⟩

/-- A string with another character than ASCII is quoted as it is not written. -/
theorem misquotes_accent :
    let text := "print 1 \"é\";"
    (Source.ofText text).lexicalErrors = [] ∧
      (∃ q ∈ placedPieces (Source.ofText text), ∃ t, q.token? = some t ∧ q.Shows text "\"é\"" ∧
        (Source.ofText text).syntaxErrors = [⟨t, .unendedPrint⟩] ∧ t.kind ≠ .endOfInput) ∧
      ((new 0).afterReading (Source.ofText text)).ledger.messages =
        #["[line 1] Error at '\"Ã©\"': Expect ';' after value."] ∧
      ((new 0).afterReading (Source.ofText text)).ledger.messages ≠
        #["[line 1] Error at '\"é\"': Expect ';' after value."] := by
  intro text
  have hmessages : ((new 0).afterReading (Source.ofText text)).ledger.messages =
      #["[line 1] Error at '\"Ã©\"': Expect ';' after value."] := by decide +kernel
  let q : PlacedPiece := ⟨Source.ofText "print 1 ", ⟨.string, Source.ofText "\"é\""⟩⟩
  have htoken : q.token? = some ⟨.string, "\"Ã©\"", some (.string "é"), 1⟩ := by decide +kernel
  have hmem : q ∈ placedPieces (Source.ofText text) := by decide +kernel
  refine ⟨by decide +kernel, ⟨q, hmem, _, htoken, ⟨"print 1 ", ";", by decide, rfl, rfl⟩,
    by decide +kernel, by decide⟩, hmessages, ?_⟩
  rw [hmessages]
  decide

end Session

end Lox
