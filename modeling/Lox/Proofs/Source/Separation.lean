import Lox.Proofs.Lines
import Lox.Proofs.Source.LongestMatch

/-! # Separated texts

A blank character ends every piece in front of it but a comment, and a line end ends comments too.
So a text with a blank between its parts has the pieces of both parts with that blank between them,
and the tokens of the second part stand where they would stand alone, on later lines.

* **`Piece.cut_append_blank`** — a first piece stays with a blank behind the text;
* **`pieces_append_blank`** — the pieces of two texts with a blank between them;
* **`errorsOf_pieces_eq_nil_iff`** — no piece is reported exactly if all pieces are of patterns;
* **`tokensOf_add`**, **`errorsOf_add`** — the tokens and reports of pieces that start on a later
  line. -/

namespace Lox

open Numeral (AllDigits)

/-! ## Patterns and blanks -/

/-- Among the texts of a pattern only strings, comments and blanks have a blank in them. -/
theorem Pattern.kind_of_blank_mem {kind : PieceKind} {text : List Char} (h : Pattern kind text)
    {d : Char} (hd : d ∈ blanks) (hmem : d ∈ text) :
    kind = .string ∨ kind = .comment ∨ kind = .blank := by
  have hclass : isDigit d = false ∧ isLetter d = false ∧ d ≠ '.' ∧
      ∀ entry ∈ operatorTexts, d ∉ entry.1 := by
    rcases mem_blanks_iff.1 hd with rfl | rfl | rfl | rfl <;> decide
  obtain ⟨hdigit, hletter, hpoint, hoperator⟩ := hclass
  have hdigits : ∀ {ds : List Char}, AllDigits ds → d ∉ ds := by
    intro ds hds hmem
    rw [hds d hmem] at hdigit
    cases hdigit
  cases h with
  | operator h => exact absurd hmem (hoperator _ h)
  | digits hne hds => exact absurd hmem (hdigits hds)
  | fraction hne hds hfne hfs =>
    rcases List.mem_append.1 hmem with hmem | hmem
    · exact absurd hmem (hdigits hds)
    · rcases List.mem_cons.1 hmem with hmem | hmem
      · exact absurd hmem hpoint
      · exact absurd hmem (hdigits hfs)
  | word hc hcs =>
    have hchar : isLetter d = true ∨ isDigit d = true := by
      rcases List.mem_cons.1 hmem with rfl | hmem
      · exact .inl hc
      · exact hcs d hmem
    rw [hletter, hdigit] at hchar
    rcases hchar with hfalse | hfalse <;> cases hfalse
  | string => exact .inl rfl
  | comment => exact .inr (.inl rfl)
  | blank => exact .inr (.inr rfl)

/-- A blank is a piece of its own. -/
theorem Piece.cut_blank {d : Char} (hd : d ∈ blanks) (rest : List Char) :
    cut d rest = (⟨.blank, [d]⟩, rest) := by
  rcases mem_blanks_iff.1 hd with rfl | rfl | rfl | rfl <;> rfl

namespace Piece

variable {c d : Char} {rest back : List Char}

/-- A text of a pattern that goes on over a blank is a string with no end in front of the blank, or
a comment in front of a blank that is no line end. -/
theorem open_of_pattern {kind : PieceKind} {more : List Char}
    (h : Pattern kind (c :: (rest ++ d :: more))) (hd : d ∈ blanks) :
    (c = '"' ∧ '"' ∉ rest) ∨ (d ≠ '\n' ∧ Pattern .comment (c :: rest)) := by
  have hkind := h.kind_of_blank_mem hd (by simp)
  generalize htext : c :: (rest ++ d :: more) = text at h
  cases h with
  | @string body hbody =>
    obtain ⟨rfl, hrest⟩ := List.cons.inj htext
    -- the closing quotation mark stands behind the blank
    have hprefix : rest <+: body ++ ['"'] := ⟨_, hrest⟩
    rcases List.prefix_concat_iff.1 hprefix with rfl | hfront
    · exact absurd hrest (by simp)
    · exact .inl ⟨rfl, fun hmem => hbody (hfront.subset hmem)⟩
  | @comment body hbody =>
    cases rest with
    | nil =>
      have hslash : d = '/' := (List.cons.inj (List.cons.inj htext).2).1
      rw [hslash] at hd
      exact absurd hd (by decide)
    | cons r rest =>
      rw [List.cons_append, List.cons.injEq, List.cons.injEq] at htext
      obtain ⟨rfl, rfl, rfl⟩ := htext
      rw [List.mem_append, List.mem_cons, not_or, not_or] at hbody
      exact .inr ⟨fun hd => hbody.2.1 hd.symm, .comment hbody.1⟩
  | blank => exact absurd htext (by simp)
  | _ => rcases hkind with hkind | hkind | hkind <;> cases hkind

/-- **A first piece is the same with a blank behind the text**, if that ends it: unless it is a
string that is never closed, or a comment and the blank no line end. -/
theorem cut_append_blank (h : (cut c rest).1.kind ≠ .unterminated)
    (hd : d ∈ blanks) (hcomment : (cut c rest).1.kind = .comment → d = '\n')
    (back : List Char) :
    cut c (rest ++ d :: back) = ((cut c rest).1, (cut c rest).2 ++ d :: back) := by
  have hquote : c = '"' → '"' ∈ rest := by
    rintro rfl
    by_contra hrest
    rw [cut_quote hrest] at h
    exact h rfl
  rcases pattern_cut c (rest ++ d :: back) with hpattern | ⟨hother, -⟩ | ⟨⟨hc, hmem⟩, -⟩
  · cases hmeasure : measure c (rest ++ d :: back) with
    | mk kind n =>
      simp only [cut, hmeasure] at hpattern ⊢
      by_cases hn : n ≤ rest.length
      · rw [measure_append hmeasure hn hpattern.kind_ne.2, List.take_append_of_le_length hn,
          List.drop_append_of_le_length hn]
      · -- the blank would belong to the piece
        obtain ⟨m, rfl⟩ : ∃ m, n = rest.length + (m + 1) := ⟨n - rest.length - 1, by omega⟩
        rw [List.take_length_add_append, List.take_succ_cons] at hpattern
        rcases open_of_pattern hpattern hd with ⟨hc, hmem⟩ | ⟨hne, hwhole⟩
        · exact absurd (hquote hc) hmem
        · refine absurd (hcomment ?_) hne
          rw [cut, measure_of_pattern hwhole]
  · -- a character that starts no piece is one, whatever is behind it
    simp only [cut, measure_eq, hother]
    rfl
  · exact absurd (List.mem_append_left _ (hquote hc)) hmem

end Piece

/-! ## All pieces -/

/-- **The pieces of two texts with a blank between them**: those of the first text, the blank, and
those of the second one. -/
theorem pieces_append_blank {front : List Char} {d : Char}
    (h : ∀ p ∈ pieces front, p.kind ≠ .unterminated) (hd : d ∈ blanks)
    (hcomment : ∀ p ∈ pieces front, p.kind = .comment → d = '\n') (back : List Char) :
    pieces (front ++ d :: back) = pieces front ++ ⟨.blank, [d]⟩ :: pieces back := by
  fun_induction pieces front with
  | case1 => rw [List.nil_append, List.nil_append, pieces_cons, Piece.cut_blank hd]
  | case2 c rest ih =>
    have hcut := Piece.cut_append_blank (h _ List.mem_cons_self) hd
      (hcomment _ List.mem_cons_self) back
    rw [List.cons_append, pieces_cons, hcut, List.cons_append]
    rw [ih (fun p hp => h p (List.mem_cons_of_mem _ hp))
      fun p hp => hcomment p (List.mem_cons_of_mem _ hp)]

/-- A text of a pattern is one piece. -/
theorem pieces_text {p : Piece} (h : Pattern p.kind p.text) : pieces p.text = [p] := by
  obtain ⟨kind, text⟩ := p
  obtain ⟨c, cs, rfl⟩ := h.exists_eq_cons
  rw [pieces_cons, Piece.cut, Piece.measure_of_pattern h]
  simp only [List.take_length, List.drop_length, pieces_nil]

/-- Pieces that are of patterns or reported have no reports exactly if all are of patterns. -/
theorem errorsOf_eq_nil_iff {ps : List Piece} (line : Nat)
    (h : ∀ p ∈ ps, Pattern p.kind p.text ∨ p.kind = .unexpected ∨ p.kind = .unterminated) :
    errorsOf line ps = [] ↔ ∀ p ∈ ps, Pattern p.kind p.text := by
  induction ps generalizing line with
  | nil => simp [errorsOf]
  | cons p ps ih =>
    rw [errorsOf, List.append_eq_nil_iff, List.forall_mem_cons,
      ih _ fun q hq => h q (List.mem_cons_of_mem p hq)]
    refine and_congr_left fun _ => ⟨fun herror => ?_, fun hp => ?_⟩
    · rcases h p List.mem_cons_self with hp | hkind | hkind
      · exact hp
      · simp [Piece.error?, hkind] at herror
      · simp [Piece.error?, hkind] at herror
    · rw [hp.error?_eq_none]
      rfl

/-- **No piece of a source is reported exactly if all are of patterns.** -/
theorem errorsOf_pieces_eq_nil_iff {line : Nat} {source : Source} :
    errorsOf line (pieces source) = [] ↔ ∀ p ∈ pieces source, Pattern p.kind p.text :=
  errorsOf_eq_nil_iff line fun _ hp => (cuts_iff.2 rfl).pattern_of_mem hp

/-! ## Lines -/

/-- What a piece stands for on a later line. -/
theorem Piece.token?_add (line d : Nat) (p : Piece) :
    p.token? (line + d : Nat) = (p.token? line).map (Token.moved (· + (d : Int))) := by
  obtain ⟨kind, text⟩ := p
  cases kind <;> simp [token?, Token.moved]

/-- **Pieces that start on a later line** have the same tokens there. -/
theorem tokensOf_add (line d : Nat) (ps : List Piece) :
    tokensOf (line + d) ps = (tokensOf line ps).map (Token.moved (· + (d : Int))) := by
  induction ps generalizing line with
  | nil => rfl
  | cons p ps ih =>
    have hlines : line + d + p.lines = line + p.lines + d := Nat.add_right_comm _ _ _
    rw [tokensOf, tokensOf, hlines, ih, Piece.token?_add, List.map_append, Option.toList_map]

/-- What a piece is reported as on a later line. -/
theorem Piece.error?_add (line d : Nat) (p : Piece) :
    p.error? (line + d : Nat) = (p.error? line).map (LexicalError.moved (· + (d : Int))) := by
  obtain ⟨kind, text⟩ := p
  cases kind <;> simp [error?, LexicalError.moved]

/-- **Pieces that start on a later line** have the same reports there. -/
theorem errorsOf_add (line d : Nat) (ps : List Piece) :
    errorsOf (line + d) ps = (errorsOf line ps).map (LexicalError.moved (· + (d : Int))) := by
  induction ps generalizing line with
  | nil => rfl
  | cons p ps ih =>
    have hlines : line + d + p.lines = line + p.lines + d := Nat.add_right_comm _ _ _
    rw [errorsOf, errorsOf, hlines, ih, Piece.error?_add, List.map_append, Option.toList_map]

end Lox
