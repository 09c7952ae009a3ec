import Lox.Proofs.Source.LineNumbers
import Lox.Proofs.Text.Utf8

/-! # String tokens

A string token has the characters between two quotation marks, as bytes, and its literal is the text
that these bytes are read as. Where they are the bytes of a text, the literal is that text; in the
bytes of a text this is always so, because the quotation marks are characters of the text.

* **`Source.ofText_eq_ofBytes`** — the source of a text is its UTF-8 form, byte by byte;
* **`Token.Quotes`** — a token of a text between quotation marks;
* **`Token.quotes_of_lexeme`** — in any source, a token whose bytes are those of a text quotes it;
* **`Source.exists_quotes`** — in a text, every string token quotes what is written there. -/

namespace Lox

/-- The source of a text is its UTF-8 form, byte by byte. -/
theorem Source.ofText_eq_ofBytes (text : String) :
    ofText text = ofBytes text.toByteArray.data.toList := by
  have hbytes : text.toByteArray.data.toList = text.toList.flatMap String.utf8EncodeChar := by
    rw [← String.utf8Encode_toList, List.utf8Encode, List.toList_data_toByteArray]
  rw [hbytes, ofBytes, List.map_flatMap, ofText, Text.toBytes]
  simp only [Text.charBytes_eq_utf8EncodeChar, List.map_map]
  rfl

/-- A token of a text between quotation marks: its literal is the text, and its lexeme the UTF-8
form of the text, byte by byte, between the quotation marks. -/
structure Token.Quotes (t : Token) (text : String) : Prop where
  literal : t.literal = some (.string text)
  lexeme : t.lexeme.toList = '"' :: (Source.ofBytes text.toByteArray.data.toList ++ ['"'])

/-! ## Pieces of strings -/

/-- Only strings are tokens of strings. -/
theorem Piece.Formed.kind_of_string {p : Piece} (hp : p.Formed) {line : Nat} {t : Token}
    (h : p.token? line = some t) (hkind : t.kind = .string) : p.kind = .string := by
  obtain ⟨kind, text⟩ := p
  cases kind with
  | operator kind =>
    cases h
    have hall : ∀ k ∈ operatorKinds, k ≠ .string := by decide
    exact absurd hkind (hall kind (hp.operator kind rfl))
  | word =>
    cases h
    rcases TokenKind.ofWord_eq (String.ofList text) with ⟨k, hk⟩ | hk
    · exact absurd (hk.symm.trans hkind) (by simp)
    · exact absurd (hk.symm.trans hkind) (by simp)
  | string => rfl
  | number => cases h; cases hkind
  | blank | comment | unexpected | unterminated => cases h

/-- **The token of a string** has a quotation mark at either end and none in between, and its
literal is what the bytes in between are read as. -/
theorem Piece.exists_body_of_string {source : Source} {p : Piece} (hp : p ∈ pieces source)
    {line : Nat} {t : Token} (h : p.token? line = some t) (hkind : t.kind = .string) :
    ∃ body, '"' ∉ body ∧ p.text = '"' :: (body ++ ['"']) ∧
      t.literal = some (.string (Text.ofBytes body)) := by
  have hstring := (Piece.formed_of_mem_pieces hp).kind_of_string h hkind
  have hcuts : Cuts source (pieces source) := cuts_iff.2 rfl
  rcases hcuts.pattern_of_mem hp with hpattern | hother | hother
  · obtain ⟨kind, text⟩ := p
    cases hstring
    cases hpattern with
    | @string body hbody =>
      refine ⟨body, hbody, rfl, ?_⟩
      cases h
      show Scan.stringLiteral _ = _
      rw [Scan.stringLiteral, List.tail_cons, List.dropLast_concat]
  · rw [hother] at hstring
    cases hstring
  · rw [hother] at hstring
    cases hstring

/-- A string token of a source is the token of one of its pieces, in its place. -/
theorem Source.exists_placed_of_string {source : Source} {t : Token}
    (h : t ∈ (scan source).tokens.toList) (hkind : t.kind = .string) :
    ∃ q ∈ placedPieces source, q.token? = some t ∧ q.piece ∈ pieces source := by
  rw [toList_tokens_scan_eq, List.mem_append] at h
  rcases h with h | h
  · obtain ⟨q, hq, ht⟩ := List.mem_filterMap.1 h
    exact ⟨q, hq, ht, piece_mem_pieces hq⟩
  · rw [List.mem_singleton.1 h] at hkind
    cases hkind

/-- **In any source, a string token quotes the text whose bytes it has.** -/
theorem Token.quotes_of_lexeme {source : Source} {t : Token}
    (h : t ∈ (scan source).tokens.toList) (hkind : t.kind = .string) {text : String}
    (hlexeme : t.lexeme.toList =
      '"' :: (Source.ofBytes text.toByteArray.data.toList ++ ['"'])) : t.Quotes text := by
  obtain ⟨q, -, ht, hmem⟩ := Source.exists_placed_of_string h hkind
  obtain ⟨body, -, htext, hliteral⟩ := Piece.exists_body_of_string hmem ht hkind
  refine ⟨?_, hlexeme⟩
  rw [← Source.ofText_eq_ofBytes, ← Piece.text_eq_of_token? ht, htext, List.cons.injEq,
    List.append_left_inj] at hlexeme
  rw [hliteral, hlexeme.2, Source.ofText, Text.ofBytes_toBytes]

/-! ## Strings in a text -/

/-- **Quotation marks in the bytes of a text are characters of the text.** What is between two of
them are the bytes of what is between them in the text. -/
theorem Source.exists_of_ofText_eq {text : String} {front body back : List Char}
    (h : ofText text = front ++ '"' :: (body ++ ['"']) ++ back) :
    ∃ before inner behind, text = before ++ ("\"" ++ inner ++ "\"") ++ behind ∧
      ofText before = front ∧ ofText inner = body ∧ ofText behind = back := by
  have hmark : '"'.toNat < 0x80 := by decide
  have hopening : Text.toBytes (String.ofList text.toList) =
      front ++ '"' :: (body ++ '"' :: back) := by
    rw [String.ofList_toList]
    simpa [ofText] using h
  obtain ⟨as, bs, htext, hfront, hclosing⟩ :=
    Text.exists_of_toBytes_eq_append_cons hmark hopening
  obtain ⟨inner, cs, rfl, hbody, hback⟩ := Text.exists_of_toBytes_eq_append_cons hmark hclosing
  refine ⟨String.ofList as, String.ofList inner, String.ofList cs, ?_, hfront, hbody, hback⟩
  apply String.toList_injective
  simp [htext]

/-- **In a text, every string token quotes what is written there** between its two quotation
marks. -/
theorem Source.exists_quotes {text : String} {t : Token}
    (h : t ∈ (scan (ofText text)).tokens.toList) (hkind : t.kind = .string) :
    ∃ q ∈ placedPieces (ofText text), q.token? = some t ∧
      ∃ before inner behind, text = before ++ ("\"" ++ inner ++ "\"") ++ behind ∧
        q.front = ofText before ∧ t.Quotes inner := by
  obtain ⟨q, hq, ht, hmem⟩ := exists_placed_of_string h hkind
  obtain ⟨body, -, htext, -⟩ := Piece.exists_body_of_string hmem ht hkind
  obtain ⟨back, hsource⟩ := upTo_prefix_of_mem_placedPieces hq
  rw [PlacedPiece.upTo, htext] at hsource
  obtain ⟨before, inner, behind, rfl, hfront, rfl, -⟩ := exists_of_ofText_eq hsource.symm
  refine ⟨q, hq, ht, before, inner, behind, rfl, hfront.symm, ?_⟩
  apply Token.quotes_of_lexeme h hkind
  rw [← Piece.text_eq_of_token? ht, htext, ofText_eq_ofBytes]

end Lox
