import Lox.Proofs.Source.Separation

/-! # The layout of a text

Between its tokens a text may have blanks and comments, and which ones does not matter: texts of the
same lexemes, with a blank at the start of every gap between them, have the same tokens on other
lines.

* **`Filler`**, **`Separator`** — what may stand between two lexemes;
* **`LaidOut`** — the texts of given lexemes;
* **`Spells`** — a text has given tokens when lines are left out, and nothing in it is reported;
* **`LaidOut.spells`** — every text of the lexemes of some tokens spells these tokens. -/

namespace Lox

/-! ## Texts of given lexemes -/

/-- Blanks and complete comments in any mix. -/
inductive Filler : List Char → Prop
  | nil : Filler []
  | blank {c : Char} {rest : List Char} (hc : c ∈ blanks) (h : Filler rest) :
      Filler (c :: rest)
  | comment {body rest : List Char} (hbody : '\n' ∉ body) (h : Filler rest) :
      Filler ('/' :: '/' :: (body ++ '\n' :: rest))

/-- **What separates two lexemes**: a blank, and blanks and complete comments behind it. -/
inductive Separator : List Char → Prop
  | mk {c : Char} {rest : List Char} (hc : c ∈ blanks) (h : Filler rest) :
      Separator (c :: rest)

/-- Lexemes with a separator between any two of them, and maybe one behind the last. -/
inductive Spread : List (List Char) → List Char → Prop
  | nil : Spread [] []
  | last (lexeme : List Char) : Spread [lexeme] lexeme
  | cons {lexeme gap rest : List Char} {lexemes : List (List Char)} (hgap : Separator gap)
      (h : Spread lexemes rest) : Spread (lexeme :: lexemes) (lexeme ++ (gap ++ rest))

/-- **The texts of given lexemes**: they stand in order, with a separator between any two of them,
and maybe one in front of the first and one behind the last. -/
inductive LaidOut (lexemes : List (List Char)) : List Char → Prop
  | bare {text : List Char} (h : Spread lexemes text) : LaidOut lexemes text
  | behind {gap text : List Char} (hgap : Separator gap) (h : Spread lexemes text) :
      LaidOut lexemes (gap ++ text)

/-! ## Tokens without lines -/

/-- What a piece stands for, its line left out. -/
theorem Piece.token?_unlined (line : Nat) (p : Piece) :
    (p.token? line).map (Token.moved fun _ => 0) = p.token? 0 := by
  obtain ⟨kind, text⟩ := p
  cases kind <;> rfl

/-- The tokens of pieces, their lines left out. -/
theorem tokensOf_unlined (line : Nat) (ps : List Piece) :
    (tokensOf line ps).map (Token.moved fun _ => 0) = ps.filterMap (Piece.token? 0) := by
  induction ps generalizing line with
  | nil => rfl
  | cons p ps ih =>
    rw [tokensOf, List.map_append, ih, ← Option.toList_map, Piece.token?_unlined,
      List.filterMap_cons]
    cases p.token? 0 <;> rfl

/-- **A text spells tokens** if these are its tokens when lines are left out, and all its pieces are
of patterns. -/
structure Spells (text : List Char) (ts : List Token) : Prop where
  pattern : ∀ p ∈ pieces text, Pattern p.kind p.text
  tokens_eq : (pieces text).filterMap (Piece.token? 0) = ts

namespace Spells

variable {text gap : List Char} {ts : List Token} {p : Piece} {d : Char}

/-- A text without reports spells its tokens. -/
theorem of_errorsOf_eq_nil {line : Nat} (h : errorsOf line (pieces text) = []) :
    Spells text ((tokensOf line (pieces text)).map (Token.moved fun _ => 0)) :=
  ⟨errorsOf_pieces_eq_nil_iff.1 h, (tokensOf_unlined line _).symm⟩

/-- No text spells nothing. -/
theorem nil : Spells [] [] := by
  constructor <;> simp

/-- A text of a pattern spells its token. -/
theorem piece (hp : Pattern p.kind p.text) : Spells p.text (p.token? 0).toList := by
  refine ⟨?_, ?_⟩
  · rw [pieces_text hp]
    exact fun q hq => List.mem_singleton.1 hq ▸ hp
  · rw [pieces_text hp, List.filterMap_cons]
    cases p.token? 0 <;> rfl

/-- A blank spells nothing. -/
theorem blank (h : Spells text ts) (hd : d ∈ blanks) : Spells (d :: text) ts := by
  have hpieces : pieces (d :: text) = ⟨.blank, [d]⟩ :: pieces text := by
    rw [pieces_cons, Piece.cut_blank hd]
  refine ⟨?_, ?_⟩
  · rw [hpieces, List.forall_mem_cons]
    exact ⟨.blank hd, h.pattern⟩
  · rw [hpieces, List.filterMap_cons]
    exact h.tokens_eq

/-- A text of a pattern with a blank behind it spells its token in front of what else is spelled. -/
theorem piece_blank (h : Spells text ts) (hp : Pattern p.kind p.text)
    (hd : d ∈ blanks) (hcomment : p.kind = .comment → d = '\n') :
    Spells (p.text ++ d :: text) ((p.token? 0).toList ++ ts) := by
  have hmem : ∀ q ∈ pieces p.text, q = p := by
    rw [pieces_text hp]
    exact fun q hq => List.mem_singleton.1 hq
  have hpieces : pieces (p.text ++ d :: text) = p :: ⟨.blank, [d]⟩ :: pieces text := by
    rw [pieces_append_blank (fun q hq => hmem q hq ▸ hp.kind_ne.2) hd
        (fun q hq => hmem q hq ▸ hcomment),
      pieces_text hp, List.singleton_append]
  refine ⟨?_, ?_⟩
  · rw [hpieces, List.forall_mem_cons, List.forall_mem_cons]
    exact ⟨hp, .blank hd, h.pattern⟩
  · rw [hpieces, List.filterMap_cons, List.filterMap_cons, ← h.tokens_eq]
    cases p.token? 0 <;> rfl

/-- Blanks and complete comments spell nothing. -/
theorem filler (h : Spells text ts) (hgap : Filler gap) : Spells (gap ++ text) ts := by
  induction hgap with
  | nil => exact h
  | blank hc _ ih => exact ih.blank hc
  | @comment body rest hbody _ ih =>
    have hspells : Spells (('/' :: '/' :: body) ++ '\n' :: (rest ++ text)) ts :=
      ih.piece_blank (p := ⟨.comment, _⟩) (.comment hbody) (by decide) fun _ => rfl
    simpa using hspells

/-- A separator spells nothing. -/
theorem separator (h : Spells text ts) (hgap : Separator gap) : Spells (gap ++ text) ts := by
  obtain ⟨hc, hrest⟩ := hgap
  exact (h.filler hrest).blank hc

/-- A token with a separator behind it is spelled in front of what else is spelled. -/
theorem token_separator (h : Spells text ts) (hp : Pattern p.kind p.text) {t : Token}
    (ht : p.token? 0 = some t) (hgap : Separator gap) :
    Spells (p.text ++ (gap ++ text)) (t :: ts) := by
  obtain ⟨hc, hrest⟩ := hgap
  have hspells := (h.filler hrest).piece_blank hp hc fun hkind => by
    rw [Piece.token?, hkind] at ht
    cases ht
  rwa [ht] at hspells

end Spells

/-! ## Texts spell their lexemes -/

/-- A token as it is read from a text, its line left out. -/
def Token.Spelled (t : Token) : Prop :=
  ∃ p : Piece, Pattern p.kind p.text ∧ p.token? 0 = some t

/-- The tokens that a text spells are read from it. -/
theorem Spells.spelled_of_mem {text : List Char} {ts : List Token} (h : Spells text ts) {t : Token}
    (ht : t ∈ ts) : t.Spelled := by
  rw [← h.tokens_eq] at ht
  obtain ⟨p, hp, htoken⟩ := List.mem_filterMap.1 ht
  exact ⟨p, h.pattern p hp, htoken⟩

/-- Lexemes that are spread spell their tokens. -/
theorem Spread.spells {ts : List Token} {text : List Char} (hts : ∀ t ∈ ts, t.Spelled)
    (h : Spread (ts.map (·.lexeme.toList)) text) : Spells text ts := by
  generalize hlexemes : ts.map (·.lexeme.toList) = lexemes at h
  induction h generalizing ts with
  | nil =>
    rw [List.map_eq_nil_iff] at hlexemes
    subst hlexemes
    exact .nil
  | last lexeme =>
    obtain ⟨t, rfl, rfl⟩ := List.map_eq_singleton_iff.1 hlexemes
    obtain ⟨p, hp, htoken⟩ := hts t List.mem_cons_self
    have hspells := Spells.piece hp
    rwa [htoken, Piece.text_eq_of_token? htoken] at hspells
  | cons hgap _ ih =>
    obtain ⟨t, ts, rfl, rfl, hrest⟩ := List.map_eq_cons_iff.1 hlexemes
    obtain ⟨p, hp, htoken⟩ := hts t List.mem_cons_self
    have hspells := ih (fun t' ht' => hts t' (List.mem_cons_of_mem t ht')) hrest
    rw [← Piece.text_eq_of_token? htoken]
    exact hspells.token_separator hp htoken hgap

/-- **A text of the lexemes of some tokens spells these tokens**, whatever its layout is. -/
theorem LaidOut.spells {ts : List Token} {text : List Char} (hts : ∀ t ∈ ts, t.Spelled)
    (h : LaidOut (ts.map (·.lexeme.toList)) text) : Spells text ts := by
  cases h with
  | bare h => exact h.spells hts
  | behind hgap h => exact (h.spells hts).separator hgap

end Lox
