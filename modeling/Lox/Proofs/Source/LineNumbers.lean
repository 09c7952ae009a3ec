import Mathlib.Data.List.Basic
import Lox.Proofs.Source.LongestMatch

/-! # Line numbers

Every token carries the line that its last character is on, and so does every report: one more than
the number of line ends in front of that place. The lines are counted piece by piece while the
source is cut; here they are compared with the source itself.

* **`PlacedPiece`**, **`placedPieces`** — the pieces of a source, each with what is in front of it;
* **`tokensOf_eq_filterMap`**, **`errorsOf_eq_filterMap`** — what pieces list, by their places;
* **`PlacedPiece.error?_eq_report?`** — a report is on the line of the character that is reported,
  or on the last line;
* **`Window.Reached.line_eq`** — the line reached while a source is scanned;
* **`Source.Numbered`**, **`Source.line_numbers`** — the lines of all tokens and reports. -/

namespace Lox

/-! ## Lines of a text -/

/-- The line reached behind some characters. -/
def lineAfter (cs : List Char) : Nat := 1 + cs.count '\n'

@[simp] theorem lineAfter_nil : lineAfter [] = 1 := rfl

theorem lineAfter_append (cs ds : List Char) :
    lineAfter (cs ++ ds) = lineAfter cs + ds.count '\n' := by
  rw [lineAfter, lineAfter, List.count_append, Nat.add_assoc]

/-- Behind more characters the line is no smaller. -/
theorem lineAfter_mono {cs ds : List Char} (h : cs <+: ds) :
    lineAfter cs ≤ lineAfter ds := by
  obtain ⟨more, rfl⟩ := h
  rw [lineAfter_append]
  exact Nat.le_add_right _ _

/-! ## Pieces and their places -/

/-- A piece of a source, with the characters in front of it. -/
structure PlacedPiece where
  front : Source
  piece : Piece
deriving DecidableEq

namespace PlacedPiece

/-- The source up to the end of a piece. -/
def upTo (q : PlacedPiece) : Source := q.front ++ q.piece.text

/-- The token that a piece stands for: its line is that of the source up to its end. -/
def token? (q : PlacedPiece) : Option Token := q.piece.token? (lineAfter q.upTo)

/-- The report that a piece stands for, on the line of the source up to its end. -/
def error? (q : PlacedPiece) : Option LexicalError := q.piece.error? (lineAfter q.upTo)

/-- What is reported of a source: a character that starts no piece, on the line of what is in front
of it, and a string that is never closed, on the last line. -/
def report? (source : Source) (q : PlacedPiece) : Option LexicalError :=
  match q.piece.kind with
  | .unexpected => some ⟨lineAfter q.front, .unexpectedCharacter⟩
  | .unterminated => some ⟨lineAfter source, .unterminatedString⟩
  | .blank | .comment | .operator _ | .number | .word | .string => none

end PlacedPiece

/-- Pieces that follow one another, the first one behind some characters. -/
def placedFrom (front : Source) : List Piece → List PlacedPiece
  | [] => []
  | p :: ps => ⟨front, p⟩ :: placedFrom (front ++ p.text) ps

/-- The pieces of a source, each in its place. -/
def placedPieces (source : Source) : List PlacedPiece := placedFrom [] (pieces source)

/-- The pieces in their places are the pieces. -/
theorem map_piece_placedFrom (front : Source) (ps : List Piece) :
    (placedFrom front ps).map PlacedPiece.piece = ps := by
  induction ps generalizing front with
  | nil => rfl
  | cons p ps ih => simp [placedFrom, ih]

/-- A piece in its place is one of the pieces. -/
theorem piece_mem_pieces {source : Source} {q : PlacedPiece} (h : q ∈ placedPieces source) :
    q.piece ∈ pieces source := by
  rw [← map_piece_placedFrom [] (pieces source)]
  exact List.mem_map_of_mem h

/-- Pieces that follow one another start behind what is in front of the first one, and end where all
of them do. -/
theorem prefix_of_mem_placedFrom {front : Source} {ps : List Piece} {q : PlacedPiece}
    (h : q ∈ placedFrom front ps) :
    front <+: q.front ∧ q.upTo <+: front ++ (ps.map Piece.text).flatten := by
  induction ps generalizing front with
  | nil => cases h
  | cons p ps ih =>
    rw [List.map_cons, List.flatten_cons, ← List.append_assoc]
    rcases List.mem_cons.1 h with rfl | h
    · exact ⟨List.prefix_rfl, List.prefix_append _ _⟩
    · obtain ⟨hfront, hupTo⟩ := ih h
      exact ⟨(List.prefix_append _ _).trans hfront, hupTo⟩

/-- A piece of a source is in that source. -/
theorem upTo_prefix_of_mem_placedPieces {source : Source} {q : PlacedPiece}
    (h : q ∈ placedPieces source) : q.upTo <+: source := by
  have hupTo := (prefix_of_mem_placedFrom h).2
  rwa [List.nil_append, flatten_pieces] at hupTo

/-- Of two pieces the one that is listed first ends first. -/
theorem pairwise_upTo_placedFrom (front : Source) (ps : List Piece) :
    (placedFrom front ps).Pairwise fun q r => q.upTo <+: r.upTo := by
  induction ps generalizing front with
  | nil => exact .nil
  | cons p ps ih =>
    refine .cons (fun q hq => ?_) (ih _)
    exact (prefix_of_mem_placedFrom hq).1.trans (List.prefix_append _ _)

/-! ## What pieces list -/

/-- **The tokens of pieces are on the lines of their places.** -/
theorem tokensOf_eq_filterMap (front : Source) (ps : List Piece) :
    tokensOf (lineAfter front) ps = (placedFrom front ps).filterMap PlacedPiece.token? := by
  induction ps generalizing front with
  | nil => rfl
  | cons p ps ih =>
    rw [tokensOf, placedFrom, Piece.lines, ← lineAfter_append, ih, List.filterMap_cons]
    show (PlacedPiece.token? ⟨front, p⟩).toList ++ _ = _
    cases PlacedPiece.token? ⟨front, p⟩ <;> rfl

/-- **The reports of pieces are on the lines of their places.** -/
theorem errorsOf_eq_filterMap (front : Source) (ps : List Piece) :
    errorsOf (lineAfter front) ps = (placedFrom front ps).filterMap PlacedPiece.error? := by
  induction ps generalizing front with
  | nil => rfl
  | cons p ps ih =>
    rw [errorsOf, placedFrom, Piece.lines, ← lineAfter_append, ih, List.filterMap_cons]
    show (PlacedPiece.error? ⟨front, p⟩).toList ++ _ = _
    cases PlacedPiece.error? ⟨front, p⟩ <;> rfl

/-- Behind all pieces the line is that of their characters. -/
theorem lineBehind_eq_lineAfter (front : Source) (ps : List Piece) :
    lineBehind (lineAfter front) ps = lineAfter (front ++ (ps.map Piece.text).flatten) := by
  induction ps generalizing front with
  | nil => simp
  | cons p ps ih =>
    rw [lineBehind_cons, Piece.lines, ← lineAfter_append, ih, List.map_cons, List.flatten_cons,
      List.append_assoc]

/-- Behind the pieces of a source is its last line. -/
theorem lineBehind_pieces (source : Source) : lineBehind 1 (pieces source) = lineAfter source := by
  have hline := lineBehind_eq_lineAfter [] (pieces source)
  rwa [lineAfter_nil, List.nil_append, flatten_pieces] at hline

/-- The end token is on the last line. -/
theorem endToken_eq (source : Source) :
    endToken source = ⟨.endOfInput, "", none, (lineAfter source : Nat)⟩ := by
  rw [endToken, lineBehind_pieces]

/-- **The tokens of a source are those of its pieces**, each at its place, and the end token. -/
theorem toList_tokens_scan_eq (source : Source) :
    (scan source).tokens.toList = (placedPieces source).filterMap PlacedPiece.token? ++
      [⟨.endOfInput, "", none, (lineAfter source : Nat)⟩] := by
  rw [toList_tokens_scan, endToken_eq, ← lineAfter_nil, tokensOf_eq_filterMap]
  rfl

/-- **The reports of a source are those of its pieces**, each at its place. -/
theorem toList_errors_scan_eq (source : Source) :
    (scan source).errors.toList = (placedPieces source).filterMap PlacedPiece.error? := by
  rw [toList_errors_scan, ← lineAfter_nil, errorsOf_eq_filterMap]
  rfl

/-- A token is on the line that it is asked for. -/
theorem Piece.line_of_token? {n : Nat} {p : Piece} {t : Token} (h : p.token? n = some t) :
    t.line = n := by
  obtain ⟨kind, text⟩ := p
  cases kind <;> cases h <;> rfl

/-- A report is on the line that it is asked for. -/
theorem Piece.line_of_error? {n : Nat} {p : Piece} {e : LexicalError} (h : p.error? n = some e) :
    e.line = n := by
  obtain ⟨kind, text⟩ := p
  cases kind <;> cases h <;> rfl

/-- What pieces list on the lines of their places is listed in the order of the lines. -/
theorem pairwise_line_filterMap {α : Type} {list? : PlacedPiece → Option α} {line : α → Int}
    (hline : ∀ q a, list? q = some a → line a = (lineAfter q.upTo : Nat)) (front : Source)
    (ps : List Piece) :
    ((placedFrom front ps).filterMap list?).Pairwise fun a b => line a ≤ line b := by
  refine (pairwise_upTo_placedFrom front ps).filterMap list? fun q r hupTo a ha b hb => ?_
  rw [hline q a ha, hline r b hb]
  exact Int.ofNat_le.2 (lineAfter_mono hupTo)

/-! ## What is reported -/

/-- A character that starts no piece is no line end. -/
theorem Piece.text_of_unexpected {c : Char} {rest : List Char}
    (h : (cut c rest).1.kind = .unexpected) : (cut c rest).1.text = [c] ∧ c ≠ '\n' := by
  rcases pattern_cut c rest with hpattern | ⟨hother, hcut⟩ | ⟨-, hcut⟩
  · exact absurd h hpattern.kind_ne.1
  · rw [hcut]
    refine ⟨rfl, ?_⟩
    rintro rfl
    cases hother
  · rw [hcut] at h
    cases h

/-- A string that is never closed takes all the characters that are left. -/
theorem Piece.cut_of_unterminated {c : Char} {rest : List Char}
    (h : (cut c rest).1.kind = .unterminated) : (cut c rest).1.text = c :: rest := by
  rcases pattern_cut c rest with hpattern | ⟨-, hcut⟩ | ⟨-, hcut⟩
  · exact absurd h hpattern.kind_ne.2
  · rw [hcut] at h
    cases h
  · rw [hcut]

/-- **Reports are on the lines that are to be told**: that of what is in front of the character, and
the last one. -/
theorem error?_eq_report?_of_mem {front cs : Source} {q : PlacedPiece}
    (h : q ∈ placedFrom front (pieces cs)) : q.error? = q.report? (front ++ cs) := by
  fun_induction pieces cs generalizing front with
  | case1 => cases h
  | case2 c rest ih =>
    rcases List.mem_cons.1 h with rfl | h
    · unfold PlacedPiece.error? PlacedPiece.report? Piece.error?
      cases hkind : (Piece.cut c rest).1.kind with
      | unexpected =>
        obtain ⟨htext, hc⟩ := Piece.text_of_unexpected hkind
        simp [PlacedPiece.upTo, htext, lineAfter, hc]
      | unterminated =>
        have htext := Piece.cut_of_unterminated hkind
        simp [PlacedPiece.upTo, htext]
      | blank | comment | operator | number | word | string => rfl
    · have hsource := ih h
      rwa [List.append_assoc, Piece.text_append_rest] at hsource

/-! ## While a source is scanned -/

/-- The line reached in front of what is left. -/
theorem Window.Reached.line_eq {source : Source} {w : Window} (h : Reached source w) :
    ∃ passed, source = passed ++ w.rest ∧ w.found.line = lineAfter passed := by
  induction h with
  | start => exact ⟨[], rfl, rfl⟩
  | @step w w' h hw ih =>
    obtain ⟨passed, hsource, hline⟩ := ih
    cases hrest : w.rest with
    | nil =>
      have hmark : w.mark.rest = [] := hrest
      unfold scanPiece at hw
      rw [hmark] at hw
      cases hw
    | cons c rest =>
      rw [scanPiece_mark hrest] at hw
      cases hw
      -- passed are the characters of the piece, and counted are the line ends among them
      refine ⟨passed ++ w.rest.take ((Piece.measure c rest).2 + 1), ?_, ?_⟩
      · show source = passed ++ _ ++ w.rest.drop ((Piece.measure c rest).2 + 1)
        rw [List.append_assoc, List.take_append_drop, hsource]
      · rw [lineAfter_append, ← hline]
        generalize (Piece.measure c rest).1 = kind
        cases kind <;> rfl

/-- **The line numbers of a source.** The pieces are those of the source, each at its place. Every
token is the one of its piece, with the characters of the piece as its own, on the line of the
source up to the end of them; behind all others the end token is on the last line. A character that
starts no piece is reported on the line of what is in front of it, and a string that is never closed
on the last line. -/
structure Source.Numbered (source : Source) : Prop where
  pieces_eq : (placedPieces source).map PlacedPiece.piece = pieces source
  upTo_prefix : ∀ q ∈ placedPieces source, q.upTo <+: source
  tokens_eq : (scan source).tokens.toList = (placedPieces source).filterMap PlacedPiece.token? ++
    [⟨.endOfInput, "", none, (lineAfter source : Nat)⟩]
  token_at : ∀ q t, PlacedPiece.token? q = some t →
    t.lexeme.toList = q.piece.text ∧ t.line = (1 + q.upTo.count '\n' : Nat)
  errors_eq : (scan source).errors.toList =
    (placedPieces source).filterMap (PlacedPiece.report? source)

/-- **Line numbers are exact.** While a source is scanned piece by piece, the line reached is one
more than the number of line ends passed. The lines of its tokens and reports are those of their
places, so neither the lines of the tokens decrease nor those of the reports. -/
theorem Source.line_numbers (source : Source) :
    (∀ w, Window.Reached source w →
      ∃ passed, source = passed ++ w.rest ∧ w.found.line = 1 + passed.count '\n') ∧
    source.Numbered ∧
    (scan source).tokens.toList.Pairwise (fun t u => t.line ≤ u.line) ∧
    (scan source).errors.toList.Pairwise (fun e f => e.line ≤ f.line) := by
  have htokens := toList_tokens_scan_eq source
  have herrors := toList_errors_scan_eq source
  have hreports : (placedPieces source).filterMap PlacedPiece.error? =
      (placedPieces source).filterMap (PlacedPiece.report? source) :=
    List.filterMap_congr fun q hq => error?_eq_report?_of_mem hq
  refine ⟨fun w hw => hw.line_eq, ⟨map_piece_placedFrom _ _, ?_, htokens, ?_, ?_⟩, ?_, ?_⟩
  · intro q hq
    exact upTo_prefix_of_mem_placedPieces hq
  · intro q t ht
    exact ⟨(Piece.text_eq_of_token? ht).symm, Piece.line_of_token? ht⟩
  · rw [herrors, hreports]
  · rw [htokens, List.pairwise_append]
    have hline : ∀ q t, PlacedPiece.token? q = some t → t.line = (lineAfter q.upTo : Nat) :=
      fun q t ht => Piece.line_of_token? ht
    refine ⟨pairwise_line_filterMap hline [] _, List.pairwise_singleton _ _, fun t ht u hu => ?_⟩
    -- no piece ends behind the source, so no token is on a line behind the last one
    obtain ⟨q, hq, hqt⟩ := List.mem_filterMap.1 ht
    rw [List.mem_singleton.1 hu, hline q t hqt]
    exact Int.ofNat_le.2 (lineAfter_mono (upTo_prefix_of_mem_placedPieces hq))
  · rw [herrors]
    exact pairwise_line_filterMap (fun q e he => Piece.line_of_error? he) [] _

end Lox
