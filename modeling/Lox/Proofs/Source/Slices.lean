import Lox.Proofs.Source.Strings

/-! # Tokens as slices of a text

The bytes of a text are cut into tokens where the text has characters: a token is the UTF-8 form of
a slice of the text, byte by byte. It is the slice itself as long as that is ASCII, as all tokens but
strings are.

* **`Pattern.ascii`** — only strings and comments have other characters than ASCII;
* **`PlacedPiece.Shows`** — a piece is in the place of a slice of a text;
* **`Source.exists_shows`** — every token is in the place of a slice. -/

namespace Lox

/-! ## Pieces of ASCII characters -/

/-- Digits are ASCII characters. -/
theorem ascii_of_isDigit {c : Char} (h : isDigit c = true) : c.toNat < 0x80 := by
  have := Numeral.toNat_of_isDigit h
  omega

/-- Letters are ASCII characters. -/
theorem ascii_of_isLetter {c : Char} (h : isLetter c = true) : c.toNat < 0x80 := by
  simp only [isLetter, Bool.or_eq_true, Bool.and_eq_true, decide_eq_true_eq, beq_iff_eq] at h
  rcases h with (⟨-, hz⟩ | ⟨-, hZ⟩) | rfl
  · have hle : c.toNat ≤ 122 := hz
    omega
  · have hle : c.toNat ≤ 90 := hZ
    omega
  · decide

/-- **Only strings and comments have other characters than ASCII.** -/
theorem Pattern.ascii {kind : PieceKind} {text : List Char} (h : Pattern kind text)
    (hstring : kind ≠ .string) (hcomment : kind ≠ .comment) : ∀ c ∈ text, c.toNat < 0x80 := by
  cases h with
  | operator hmem =>
    have hall : ∀ entry ∈ operatorTexts, ∀ c ∈ entry.1, c.toNat < 0x80 := by
      simp [operatorTexts]
    exact hall _ hmem
  | digits _ hds => exact fun c hc => ascii_of_isDigit (hds c hc)
  | fraction _ hds _ hfs =>
    refine List.forall_mem_append.2 ⟨fun c hc => ascii_of_isDigit (hds c hc), ?_⟩
    exact List.forall_mem_cons.2 ⟨by decide, fun c hc => ascii_of_isDigit (hfs c hc)⟩
  | word hc hcs =>
    refine List.forall_mem_cons.2 ⟨ascii_of_isLetter hc, fun d hd => ?_⟩
    exact (hcs d hd).elim ascii_of_isLetter ascii_of_isDigit
  | string => exact absurd rfl hstring
  | comment => exact absurd rfl hcomment
  | blank hmem =>
    rw [List.forall_mem_singleton]
    rcases mem_blanks_iff.1 hmem with rfl | rfl | rfl | rfl <;> decide

/-! ## Slices of a text -/

/-- **A piece is in the place of a slice of a text**: what is in front of it and the piece are the
UTF-8 forms of what is in front of the slice and of the slice. -/
def PlacedPiece.Shows (q : PlacedPiece) (text slice : String) : Prop :=
  ∃ before behind, text = before ++ slice ++ behind ∧ q.front = Source.ofText before ∧
    q.piece.text = Source.ofText slice

/-- ASCII characters in the bytes of a text are a slice of it. -/
theorem PlacedPiece.exists_shows_of_ascii {text : String} {q : PlacedPiece}
    (hq : q.upTo <+: Source.ofText text) (hne : q.piece.text ≠ [])
    (hascii : ∀ c ∈ q.piece.text, c.toNat < 0x80) :
    ∃ slice, q.Shows text slice ∧ ∀ c ∈ slice.toList, c.toNat < 0x80 := by
  obtain ⟨back, hback⟩ := hq
  rw [upTo, List.append_assoc] at hback
  have hbytes : Text.toBytes (String.ofList text.toList) =
      q.front ++ (q.piece.text ++ back) := by
    rw [String.ofList_toList, hback]
    rfl
  obtain ⟨as, bs, htext, hfront, -⟩ := Text.exists_of_toBytes_eq_append hne hascii hbytes
  refine ⟨String.ofList q.piece.text,
    ⟨String.ofList as, String.ofList bs, ?_, hfront.symm, ?_⟩, ?_⟩
  · apply String.toList_injective
    simp [htext]
  · exact (Text.toBytes_ofList_of_ascii hascii).symm
  · rwa [String.toList_ofList]

/-- A string in the bytes of a text is a slice of it. -/
theorem PlacedPiece.exists_shows_of_string {text : String} {q : PlacedPiece} {body : List Char}
    (hq : q.upTo <+: Source.ofText text) (hpiece : q.piece.text = '"' :: (body ++ ['"'])) :
    ∃ slice, q.Shows text slice := by
  obtain ⟨back, hback⟩ := hq
  rw [upTo, hpiece] at hback
  obtain ⟨before, inner, behind, htext, hfront, hbody, -⟩ :=
    Source.exists_of_ofText_eq hback.symm
  refine ⟨"\"" ++ inner ++ "\"", before, behind, htext, hfront.symm, ?_⟩
  have hmark : Text.toBytes "\"" = ['"'] := by decide
  rw [hpiece, ← hbody]
  simp only [Source.ofText, Text.toBytes_append, hmark]
  rfl

/-- **Every token of a text is in the place of a slice of it**, and the slice is ASCII unless the
token is a string. -/
theorem Source.exists_shows {text : String} {q : PlacedPiece} (hq : q ∈ placedPieces (ofText text))
    {t : Token} (ht : q.token? = some t) :
    ∃ slice, q.Shows text slice ∧
      (t.kind ≠ .string → ∀ c ∈ slice.toList, c.toNat < 0x80) := by
  have hupTo := upTo_prefix_of_mem_placedPieces hq
  have hpattern : Pattern q.piece.kind q.piece.text := by
    have hcuts : Cuts (ofText text) (pieces (ofText text)) := cuts_iff.2 rfl
    -- what is reported is no token
    rcases hcuts.pattern_of_mem (piece_mem_pieces hq) with hpattern | hkind | hkind
    · exact hpattern
    all_goals
      rw [PlacedPiece.token?, Piece.token?, hkind] at ht
      cases ht
  by_cases hstring : q.piece.kind = .string
  · have hkind : t.kind = .string := by
      rw [PlacedPiece.token?, Piece.token?, hstring] at ht
      cases ht
      rfl
    obtain ⟨front, ⟨kind, piece⟩⟩ := q
    cases hstring
    cases hpattern
    obtain ⟨slice, hshows⟩ := PlacedPiece.exists_shows_of_string hupTo rfl
    exact ⟨slice, hshows, fun h => absurd hkind h⟩
  · have hcomment : q.piece.kind ≠ .comment := by
      intro hkind
      rw [PlacedPiece.token?, Piece.token?, hkind] at ht
      cases ht
    obtain ⟨c, cs, hcons⟩ := hpattern.exists_eq_cons
    obtain ⟨slice, hshows, hascii⟩ := PlacedPiece.exists_shows_of_ascii hupTo
      (hcons ▸ List.cons_ne_nil c cs) (hpattern.ascii hstring hcomment)
    exact ⟨slice, hshows, fun _ => hascii⟩

end Lox
