import Lox.Proofs.Grammar.Built
import Lox.Proofs.Lines
import Lox.Proofs.Source.Layout
import Lox.Proofs.Source.PrintedNumbers
import Lox.Proofs.Tree.Outline

/-! # Outlines read back

The words in an outline are lexemes of tokens, numbers, and names of kinds of nodes. A lexeme says
which token it is of, and the head of a node with the number of its arguments says of which kind the
node is. An outline is therefore that of one tree only, if lines are left out.

* **`Token.Spelled.ofLexeme_lexeme`** — tokens are determined by their lexemes;
* **`Outline.toExpr`**, **`Outline.toStmts`** — the trees of outlines;
* **`Legible.leaf_text`** — literals that are printed as they are written;
* **`Expr.Built.toExpr_outline`**, **`Stmt.AllBuilt.toStmts_outlines`** — the outline of a tree is
  read as that tree;
* **`Stmt.AllBuilt.unlined_eq_of_texts_eq`** — hence the texts of trees determine them. -/

namespace Lox

open Surface

/-! ## Tokens are determined by their lexemes -/

namespace Keyword

/-- A reserved word is found by its spelling. -/
theorem ofSpelling?_spelling (k : Keyword) : ofSpelling? k.spelling = some k := by
  cases k <;> rfl

/-- A reserved word consists of letters. -/
theorem exists_letters (k : Keyword) :
    ∃ c cs, k.spelling = String.ofList (c :: cs) ∧ ∀ d ∈ c :: cs, isLetter d = true := by
  have hne : k.spelling.toList.isEmpty = false := by cases k <;> rfl
  have hletters : k.spelling.toList.all isLetter = true := by cases k <;> rfl
  obtain ⟨c, cs, hcons⟩ := List.exists_cons_of_ne_nil (List.isEmpty_eq_false_iff.1 hne)
  rw [hcons, List.all_eq_true] at hletters
  exact ⟨c, cs, by rw [← hcons, String.ofList_toList], hletters⟩

end Keyword

/-- Letters, digits, points and minus signs are neither blanks nor parentheses. -/
theorem Outline.plain_ofList {cs : List Char}
    (h : ∀ c ∈ cs, isLetter c = true ∨ isDigit c = true ∨ c = '.' ∨ c = '-') :
    Plain (String.ofList cs) := by
  intro c hc
  rw [String.toList_ofList] at hc
  have hne (d : Char) (hd : ¬(isLetter d = true ∨ isDigit d = true ∨ d = '.' ∨ d = '-')) : c ≠ d :=
    fun heq => hd (heq ▸ h c hc)
  exact ⟨hne ' ' (by decide), hne '(' (by decide), hne ')' (by decide)⟩

namespace Token

/-- The token that a lexeme is read as, its line left out. -/
def ofLexeme (lexeme : String) : Token :=
  ((pieces lexeme.toList).filterMap (Piece.token? 0)).headD ⟨.endOfInput, "", none, 0⟩

namespace Spelled

variable {t : Token}

/-- **A token is what its lexeme is read as.** -/
theorem ofLexeme_lexeme (h : t.Spelled) : ofLexeme t.lexeme = t := by
  obtain ⟨p, hp, ht⟩ := h
  have hspells := (Spells.piece hp).tokens_eq
  rw [ht, Piece.text_eq_of_token? ht] at hspells
  rw [ofLexeme, hspells]
  rfl

/-- Two lexemes are different if they are read as tokens of different kinds. -/
theorem lexeme_ne {text : String} (h : t.Spelled) (hkind : t.kind ≠ (ofLexeme text).kind) :
    t.lexeme ≠ text := by
  rintro rfl
  rw [h.ofLexeme_lexeme] at hkind
  exact hkind rfl

/-- A reserved word is spelled. -/
theorem keyword (k : Keyword) : Spelled ⟨.keyword k, k.spelling, none, 0⟩ := by
  obtain ⟨c, cs, hspelling, hletters⟩ := k.exists_letters
  rw [List.forall_mem_cons] at hletters
  refine ⟨⟨.word, c :: cs⟩, .word hletters.1 fun d hd => .inl (hletters.2 d hd), ?_⟩
  simp only [Piece.token?, ← hspelling, TokenKind.ofWord, k.ofSpelling?_spelling]
  rfl

/-- A lexeme has neither blanks nor parentheses, unless it is of a string or a parenthesis. -/
theorem plain_lexeme (h : t.Spelled) (hkind : t.kind ∉ [.leftParen, .rightParen, .string]) :
    Outline.Plain t.lexeme := by
  obtain ⟨⟨kind, text⟩, hp, ht⟩ := h
  cases hp with
  | operator hmem =>
    cases ht
    have hall : ∀ entry ∈ operatorTexts, entry.2 = .leftParen ∨ entry.2 = .rightParen ∨
        ∀ c ∈ entry.1, c ≠ ' ' ∧ c ≠ '(' ∧ c ≠ ')' := by simp [operatorTexts]
    rcases hall _ hmem with rfl | rfl | hplain
    · simp at hkind
    · simp at hkind
    · intro c hc
      rw [String.toList_ofList] at hc
      exact hplain c hc
  | digits _ hds =>
    cases ht
    exact Outline.plain_ofList fun c hc => .inr (.inl (hds c hc))
  | fraction _ hds _ hfs =>
    cases ht
    refine Outline.plain_ofList fun c hc => ?_
    rcases List.mem_append.1 hc with hc | hc
    · exact .inr (.inl (hds c hc))
    · rcases List.mem_cons.1 hc with rfl | hc
      · exact .inr (.inr (.inl rfl))
      · exact .inr (.inl (hfs c hc))
  | word hc hcs =>
    cases ht
    refine Outline.plain_ofList (List.forall_mem_cons.2 ⟨.inl hc, fun d hd => ?_⟩)
    exact (hcs d hd).imp_right .inl
  | string _ =>
    cases ht
    simp at hkind
  | comment _ | blank _ => cases ht

/-- A name starts with a letter. -/
theorem isLetter_head (h : t.Spelled) (hkind : t.kind = .identifier) :
    t.lexeme.toList.head?.any isLetter = true := by
  obtain ⟨⟨kind, text⟩, hp, ht⟩ := h
  cases hp with
  | operator hmem =>
    cases ht
    have hall : ∀ entry ∈ operatorTexts, entry.2 ≠ .identifier := by decide
    exact absurd hkind (hall _ hmem)
  | digits | fraction | string =>
    cases ht
    cases hkind
  | word hc _ =>
    cases ht
    rw [String.toList_ofList]
    exact hc
  | comment | blank => cases ht

end Spelled

/-- A token as it is read from a text, on whatever line it stands. -/
def Read (t : Token) : Prop := (t.moved fun _ => 0).Spelled

/-- A token is what its lexeme is read as, its line left out. -/
theorem Read.ofLexeme_lexeme {t : Token} (h : t.Read) :
    ofLexeme t.lexeme = t.moved fun _ => 0 :=
  Spelled.ofLexeme_lexeme h

end Token

/-! ## Outlines as trees -/

namespace Outline

/-- The text of a word. -/
def wordText : Outline → String
  | word text => text
  | node _ _ => ""

/-- A word as an expression: a name, a literal word, or a number. -/
def leaf (text : String) : Expr :=
  if text.toList.head?.any isLetter then
    let t := Token.ofLexeme text
    if t.kind = .identifier then .reference t else .literal (literalValue t)
  else .literal ((Numeral.read? text.toList).map Value.number)

/-- The expression of an outline, its lines left out. -/
def toExpr : Outline → Expr
  | word text => leaf text
  | node head [o] =>
    if head = "group" then .grouping o.toExpr else .unary (.ofLexeme head) o.toExpr
  | node head [o, o'] =>
    if head = "=" then .assign (.ofLexeme o.wordText) o'.toExpr
    else if (Token.ofLexeme head).kind ∈ logicalKinds then
      .logical o.toExpr (.ofLexeme head) o'.toExpr
    else .binary o.toExpr (.ofLexeme head) o'.toExpr
  | node _ _ => .misplaced .bareExpression

mutual

/-- The statement of an outline, its lines left out. -/
def toStmt : Outline → Stmt
  | node ";" [o] => .expression o.toExpr
  | node "print" [o] => .print o.toExpr
  | node "var" [o] => .declaration (.ofLexeme o.wordText) none
  | node "var" [o, o'] => .declaration (.ofLexeme o.wordText) (some o'.toExpr)
  | node "block" os => .block (toStmts os)
  | node "if" [o, o'] => .branch o.toExpr o'.toStmt none
  | node "if" [o, o', o''] => .branch o.toExpr o'.toStmt (some o''.toStmt)
  | node "while" [o, o'] => .loop o.toExpr o'.toStmt
  | _ => .misplaced .bareStatement

/-- The statements of outlines, their lines left out. -/
def toStmts : List Outline → List Stmt
  | [] => []
  | o :: rest => o.toStmt :: toStmts rest

end

end Outline

/-! ## Words that are literals -/

/-- A literal that is printed as it is written: a finite number, a boolean, or `nil`. -/
def Legible : Option Value → Prop
  | some (.number n) => n.isFinite = true
  | some (.boolean _) | some .nil => True
  | some (.string _) | none => False

/-- The text of a finite number has neither blanks nor parentheses, and starts with no letter. -/
theorem plain_plainNumber {n : Float} (h : n.isFinite = true) :
    Outline.Plain (plainNumber n) ∧ (plainNumber n).toList.head?.any isLetter = false := by
  obtain ⟨whole, fraction, hprinted, -⟩ := exists_printed h
  have hmem (c : Char) (hc : c ∈ Decimal.pointed whole fraction) := Decimal.of_mem_pointed
    hprinted.whole_digits hprinted.fraction_digits hc
  obtain ⟨c, cs, hcons, hc⟩ : ∃ c cs, Decimal.pointed whole fraction = c :: cs ∧ isDigit c = true :=
    Decimal.exists_pointed_eq_cons hprinted.whole_ne hprinted.whole_digits
  have hletter : isLetter c = false := by
    by_contra hletter
    rw [Bool.not_eq_false] at hletter
    rw [Piece.isDigit_of_isLetter hletter] at hc
    cases hc
  rw [hprinted.text_eq, signed]
  split
  · refine ⟨Outline.plain_ofList (List.forall_mem_cons.2 ⟨.inr (.inr (.inr rfl)), ?_⟩), ?_⟩
    · exact fun c hc => .inr ((hmem c hc).imp_right .inl)
    · rw [String.toList_ofList]
      rfl
  · refine ⟨Outline.plain_ofList fun c hc => .inr ((hmem c hc).imp_right .inl), ?_⟩
    rw [String.toList_ofList, hcons]
    exact hletter

/-- A reserved word has neither blanks nor parentheses, and is read as its literal. -/
theorem Outline.leaf_spelling (k : Keyword) : Plain k.spelling ∧
    leaf k.spelling = .literal (literalValue ⟨.keyword k, k.spelling, none, 0⟩) := by
  have hletter : k.spelling.toList.head?.any isLetter = true := by
    obtain ⟨c, cs, hspelling, hletters⟩ := k.exists_letters
    rw [hspelling, String.toList_ofList]
    exact hletters c List.mem_cons_self
  have hread : Token.ofLexeme k.spelling = ⟨.keyword k, k.spelling, none, 0⟩ :=
    (Token.Spelled.keyword k).ofLexeme_lexeme
  refine ⟨(Token.Spelled.keyword k).plain_lexeme (by simp), ?_⟩
  rw [leaf, if_pos hletter, hread]
  rfl

/-- **The text of a legible literal is read as the literal**, and has neither blanks nor
parentheses. -/
theorem Legible.leaf_text {value : Option Value} (h : Legible value) :
    Outline.Plain (value.elim "" Value.text) ∧
      Outline.leaf (value.elim "" Value.text) = .literal value := by
  match value, h with
  | some (.number n), h =>
    obtain ⟨hplain, hletter⟩ := plain_plainNumber h
    refine ⟨hplain, ?_⟩
    show Outline.leaf (plainNumber n) = _
    rw [Outline.leaf, hletter, Numeral.read?_plainNumber h]
    rfl
  | some (.boolean true), _ => exact Outline.leaf_spelling .trueWord
  | some (.boolean false), _ => exact Outline.leaf_spelling .falseWord
  | some .nil, _ => exact Outline.leaf_spelling .nilWord

/-! ## Outlines of trees are read back -/

/-- The lexeme of a token has neither blanks nor parentheses if no token of its kinds has. -/
theorem Token.Read.plain_lexeme_of_mem {t : Token} {kinds : List TokenKind} (h : t.Read)
    (hkind : t.kind ∈ kinds) (hkinds : ∀ k ∈ kinds, k ∉ [.leftParen, .rightParen, .string]) :
    Outline.Plain t.lexeme :=
  h.plain_lexeme (hkinds _ hkind)

/-- A name has neither blanks nor parentheses. -/
theorem Token.Read.plain_name {t : Token} (h : t.Read) (hkind : t.kind = .identifier) :
    Outline.Plain t.lexeme :=
  h.plain_lexeme_of_mem (List.mem_singleton.2 hkind) (by decide)

/-- No operator is written like the head of an assignment or of parentheses. -/
theorem Token.Read.lexeme_ne_of_mem {t : Token} (h : t.Read)
    (hkind : t.kind ∈ signKinds ∨ t.kind ∈ binaryKinds ∨ t.kind ∈ logicalKinds) :
    t.lexeme ≠ "group" ∧ t.lexeme ≠ "=" := by
  have hgroup : (ofLexeme "group").kind = .identifier := by decide +kernel
  have hequal : (ofLexeme "=").kind = .equal := by decide +kernel
  have hne {kind : TokenKind} (hsign : kind ∉ signKinds) (hbinary : kind ∉ binaryKinds)
      (hlogical : kind ∉ logicalKinds) : t.kind ≠ kind := by
    rintro rfl
    rcases hkind with hkind | hkind | hkind
    · exact hsign hkind
    · exact hbinary hkind
    · exact hlogical hkind
  refine ⟨h.lexeme_ne ?_, h.lexeme_ne ?_⟩
  · rw [hgroup]
    exact hne (by decide) (by decide) (by decide)
  · rw [hequal]
    exact hne (by decide) (by decide) (by decide)

namespace Expr.Built

variable {e : Expr}

/-- The words in the outline of an expression have neither blanks nor parentheses. -/
theorem allPlain_outline (h : e.Built Token.Read Legible) : e.outline.AllPlain := by
  induction e with
  | literal value => exact h.leaf_text.1
  | grouping inner ih => exact ⟨by decide, ih h, trivial⟩
  | unary operator right ih => exact ⟨h.1.1.plain_lexeme_of_mem h.1.2 (by decide), ih h.2, trivial⟩
  | binary left operator right ihLeft ihRight | logical left operator right ihLeft ihRight =>
    obtain ⟨hleft, ⟨hread, hkind⟩, hright⟩ := h
    exact ⟨hread.plain_lexeme_of_mem hkind (by decide), ihLeft hleft, ihRight hright, trivial⟩
  | reference name => exact h.1.plain_name h.2
  | assign name value ih => exact ⟨by decide, h.1.1.plain_name h.1.2, ih h.2, trivial⟩
  | misplaced node => exact h.elim

/-- **The outline of an expression is read as the expression**, its lines left out. -/
theorem toExpr_outline (h : e.Built Token.Read Legible) :
    e.outline.toExpr = e.moved fun _ => 0 := by
  induction e with
  | literal value => exact h.leaf_text.2
  | grouping inner ih => rw [outline, Outline.toExpr, if_pos rfl, ih h, moved]
  | unary operator right ih =>
    have hhead := (h.1.1.lexeme_ne_of_mem (.inl h.1.2)).1
    rw [outline, Outline.toExpr, if_neg hhead, ih h.2, h.1.1.ofLexeme_lexeme, moved]
  | binary left operator right ihLeft ihRight =>
    obtain ⟨hleft, ⟨hread, hkind⟩, hright⟩ := h
    have hhead := (hread.lexeme_ne_of_mem (.inr (.inl hkind))).2
    have hdisjoint : ∀ k ∈ binaryKinds, k ∉ logicalKinds := by decide
    rw [outline, Outline.toExpr, if_neg hhead, hread.ofLexeme_lexeme, Token.kind_moved,
      if_neg (hdisjoint _ hkind), ihLeft hleft, ihRight hright, moved]
  | logical left operator right ihLeft ihRight =>
    obtain ⟨hleft, ⟨hread, hkind⟩, hright⟩ := h
    have hhead := (hread.lexeme_ne_of_mem (.inr (.inr hkind))).2
    rw [outline, Outline.toExpr, if_neg hhead, hread.ofLexeme_lexeme, Token.kind_moved,
      if_pos hkind, ihLeft hleft, ihRight hright, moved]
  | reference name =>
    have hletter : name.lexeme.toList.head?.any isLetter = true := h.1.isLetter_head h.2
    rw [outline, Outline.toExpr, Outline.leaf, if_pos hletter, h.1.ofLexeme_lexeme]
    exact if_pos h.2
  | assign name value ih =>
    rw [outline, Outline.toExpr, if_pos rfl, ih h.2, Outline.wordText, h.1.1.ofLexeme_lexeme, moved]
  | misplaced node => exact h.elim

end Expr.Built

mutual

/-- The words in the outline of a statement have neither blanks nor parentheses. -/
theorem Stmt.Built.allPlain_outline :
    ∀ {s : Stmt}, s.Built Token.Read Legible → s.outline.AllPlain
  | .expression _, h | .print _, h => ⟨by decide, Expr.Built.allPlain_outline h, trivial⟩
  | .declaration _ none, h => ⟨by decide, h.1.plain_name h.2, trivial⟩
  | .declaration _ (some _), h =>
    ⟨by decide, h.1.1.plain_name h.1.2, h.2.allPlain_outline, trivial⟩
  | .block _, h => ⟨by decide, Stmt.AllBuilt.eachPlain_outlines h⟩
  | .branch _ _ none, h =>
    ⟨by decide, h.1.allPlain_outline, Stmt.Built.allPlain_outline h.2, trivial⟩
  | .branch _ _ (some _), h =>
    ⟨by decide, h.1.allPlain_outline, Stmt.Built.allPlain_outline h.2.1,
      Stmt.Built.allPlain_outline h.2.2, trivial⟩
  | .loop _ _, h =>
    ⟨by decide, h.1.allPlain_outline, Stmt.Built.allPlain_outline h.2, trivial⟩
  | .misplaced _, h => h.elim

/-- The words in the outlines of statements have neither blanks nor parentheses. -/
theorem Stmt.AllBuilt.eachPlain_outlines :
    ∀ {ss : List Stmt}, Stmt.AllBuilt Token.Read Legible ss → Outline.EachPlain (Stmt.outlines ss)
  | [], _ => trivial
  | _ :: _, h => ⟨Stmt.Built.allPlain_outline h.1, Stmt.AllBuilt.eachPlain_outlines h.2⟩

end

mutual

/-- **The outline of a statement is read as the statement**, its lines left out. -/
theorem Stmt.Built.toStmt_outline :
    ∀ {s : Stmt}, s.Built Token.Read Legible → s.outline.toStmt = s.moved fun _ => 0
  | .expression _, h | .print _, h => by
    rw [Stmt.outline, Outline.toStmt, Expr.Built.toExpr_outline h, Stmt.moved]
  | .declaration name none, h => by
    rw [Stmt.outline, Outline.toStmt, Outline.wordText, h.1.ofLexeme_lexeme, Stmt.moved]
    rfl
  | .declaration name (some initializer), h => by
    rw [Stmt.outline, Outline.toStmt, Outline.wordText, h.1.1.ofLexeme_lexeme,
      h.2.toExpr_outline, Stmt.moved]
    rfl
  | .block body, h => by
    rw [Stmt.outline, Outline.toStmt, Stmt.AllBuilt.toStmts_outlines h, Stmt.moved]
  | .branch condition thenBranch none, h => by
    rw [Stmt.outline, Outline.toStmt, h.1.toExpr_outline, Stmt.Built.toStmt_outline h.2,
      Stmt.moved]
  | .branch condition thenBranch (some elseBranch), h => by
    rw [Stmt.outline, Outline.toStmt, h.1.toExpr_outline, Stmt.Built.toStmt_outline h.2.1,
      Stmt.Built.toStmt_outline h.2.2, Stmt.moved]
  | .loop condition body, h => by
    rw [Stmt.outline, Outline.toStmt, h.1.toExpr_outline, Stmt.Built.toStmt_outline h.2,
      Stmt.moved]
  | .misplaced _, h => h.elim

/-- **The outlines of statements are read as the statements**, their lines left out. -/
theorem Stmt.AllBuilt.toStmts_outlines :
    ∀ {ss : List Stmt}, Stmt.AllBuilt Token.Read Legible ss →
      Outline.toStmts (Stmt.outlines ss) = Stmt.allMoved (fun _ => 0) ss
  | [], _ => rfl
  | _ :: _, h => by
    rw [Stmt.outlines, Outline.toStmts, Stmt.Built.toStmt_outline h.1,
      Stmt.AllBuilt.toStmts_outlines h.2, Stmt.allMoved]

end

/-- **Statements are determined by the texts of their outlines**, if their lines are left out. -/
theorem Stmt.AllBuilt.unlined_eq_of_texts_eq {ss ss' : List Stmt}
    (h : Stmt.AllBuilt Token.Read Legible ss) (h' : Stmt.AllBuilt Token.Read Legible ss')
    (htexts : Outline.texts (Stmt.outlines ss) = Outline.texts (Stmt.outlines ss')) :
    Stmt.allMoved (fun _ => 0) ss = Stmt.allMoved (fun _ => 0) ss' := by
  rw [← h.toStmts_outlines, ← h'.toStmts_outlines,
    Outline.eq_of_texts h.eachPlain_outlines h'.eachPlain_outlines htexts]

end Lox
