import Lox.Tree.Printed

/-! # Outlines of printed trees

What is printed of a tree is a word, or a head with what stands behind it between parentheses. The
text alone says which one it is, as long as no word has a blank or a parenthesis in it.

* **`Outline`**, **`Outline.text`** — what is printed, before it is a text and as one;
* **`Expr.outline`**, **`Stmt.outline`** — the outlines of trees;
* **`Outline.eq_of_append`** — an outline is determined by any text that it is at the front of;
* **`Outline.eq_of_text`** — hence by its own text. -/

namespace Lox

/-- **What is printed of a tree.** -/
inductive Outline
  | word (text : String)
  | node (head : String) (arguments : List Outline)

namespace Outline

/-! ## Texts of outlines -/

mutual

/-- The text of an outline. -/
def text : Outline → String
  | word text => text
  | node head arguments => inParentheses (head :: texts arguments)

/-- The texts of outlines. -/
def texts : List Outline → List String
  | [] => []
  | o :: rest => o.text :: texts rest

end

mutual

/-- The characters of an outline. -/
def chars : Outline → List Char
  | word text => text.toList
  | node head arguments => '(' :: (head.toList ++ behindHead arguments)

/-- The characters of a node behind its head. -/
def behindHead : List Outline → List Char
  | [] => [')']
  | o :: rest => ' ' :: (o.chars ++ behindHead rest)

end

/-- The characters of a printed node: each word but the first one stands behind a space. -/
theorem toList_inParentheses_cons (head : String) (words : List String) :
    (inParentheses (head :: words)).toList =
      '(' :: (head.toList ++ ((words.map fun w => ' ' :: w.toList).flatten ++ [')'])) := by
  have hwords : (" ".intercalate (head :: words)).toList =
      head.toList ++ (words.map fun w => ' ' :: w.toList).flatten := by
    induction words generalizing head with
    | nil => simp
    | cons word words ih =>
      rw [String.intercalate_cons_cons, String.toList_append, String.toList_append, ih]
      simp
  simp [inParentheses, hwords]

mutual

/-- The characters of an outline are those of its text. -/
theorem toList_text : ∀ o : Outline, o.text.toList = o.chars
  | word _ => rfl
  | node head arguments => by
    rw [text, chars, toList_inParentheses_cons, flatten_texts]

/-- The characters behind a head are those of the texts there, each one behind a space. -/
theorem flatten_texts : ∀ os : List Outline,
    ((texts os).map fun w => ' ' :: w.toList).flatten ++ [')'] = behindHead os
  | [] => rfl
  | o :: rest => by
    rw [texts, behindHead, ← toList_text o, ← flatten_texts rest]
    simp

end

/-! ## Outlines are determined by their texts -/

/-- A text without blanks and parentheses. -/
def Plain (text : String) : Prop := ∀ c ∈ text.toList, c ≠ ' ' ∧ c ≠ '(' ∧ c ≠ ')'

instance (text : String) : Decidable (Plain text) :=
  List.decidableBAll (fun c => c ≠ ' ' ∧ c ≠ '(' ∧ c ≠ ')') text.toList

mutual

/-- The words and heads in an outline have neither blanks nor parentheses. -/
def AllPlain : Outline → Prop
  | word text => Plain text
  | node head arguments => Plain head ∧ EachPlain arguments

/-- The words and heads in outlines have neither blanks nor parentheses. -/
def EachPlain : List Outline → Prop
  | [] => True
  | o :: rest => o.AllPlain ∧ EachPlain rest

end

/-- A text ends what is in front of it: nothing is left, a space, or a closing parenthesis. -/
def Ends (text : List Char) : Prop := ∀ c ∈ text.head?, c = ' ' ∨ c = ')'

theorem ends_nil : Ends [] := nofun

/-- What stands behind a head, or behind an argument, ends it. -/
theorem ends_behindHead_append (os : List Outline) (rest : List Char) :
    Ends (behindHead os ++ rest) := by
  cases os with
  | nil =>
    rintro _ ⟨⟩
    exact .inr rfl
  | cons o os =>
    rintro _ ⟨⟩
    exact .inl rfl

variable {rest rest' : List Char}

/-- A word goes as far as what ends it. -/
theorem word_eq_of_append {w w' : String} (hw : Plain w) (hw' : Plain w') (hrest : Ends rest)
    (hrest' : Ends rest') (h : w.toList ++ rest = w'.toList ++ rest') : w = w' ∧ rest = rest' := by
  -- the characters in front of the first blank or parenthesis
  let inWord : Char → Bool := fun c => c ≠ ' ' ∧ c ≠ ')'
  have hfront {w : String} {rest : List Char} (hw : Plain w) (hrest : Ends rest) :
      (w.toList ++ rest).takeWhile inWord = w.toList := by
    rw [List.takeWhile_append_of_pos fun c hc => by
      obtain ⟨hspace, -, hclosing⟩ := hw c hc
      exact decide_eq_true ⟨hspace, hclosing⟩]
    cases rest with
    | nil => simp
    | cons c rest =>
      rw [List.takeWhile_cons_of_neg, List.append_nil]
      rcases hrest c rfl with rfl | rfl <;> decide
  have hwords : w.toList = w'.toList := by rw [← hfront hw hrest, h, hfront hw' hrest']
  exact ⟨String.toList_inj.1 hwords, (List.append_inj h (congrArg List.length hwords)).2⟩

/-- A word is not at the front of a text that starts with a parenthesis. -/
theorem word_append_ne_cons {w : String} (hw : Plain w) (hrest : Ends rest) (more : List Char) :
    w.toList ++ rest ≠ '(' :: more := by
  intro h
  cases hchars : w.toList with
  | nil =>
    rw [hchars, List.nil_append] at h
    have hopening := hrest '(' (h ▸ rfl)
    exact absurd hopening (by decide)
  | cons c cs =>
    rw [hchars] at h
    cases h
    exact (hw '(' (hchars ▸ List.mem_cons_self)).2.1 rfl

mutual

/-- **An outline is determined by any text that it is at the front of**, if what follows ends it. -/
theorem eq_of_append : ∀ (o : Outline) {o' : Outline} {rest rest' : List Char}, o.AllPlain →
    o'.AllPlain → Ends rest → Ends rest' → o.chars ++ rest = o'.chars ++ rest' →
      o = o' ∧ rest = rest'
  | word _, word _, _, _, hplain, hplain', hrest, hrest', h => by
    obtain ⟨rfl, hrest⟩ := word_eq_of_append hplain hplain' hrest hrest' h
    exact ⟨rfl, hrest⟩
  | word _, node _ _, _, _, hplain, _, hrest, _, h =>
    absurd h (word_append_ne_cons hplain hrest _)
  | node _ _, word _, _, _, _, hplain', _, hrest', h =>
    absurd h.symm (word_append_ne_cons hplain' hrest' _)
  | node head arguments, node head' arguments', rest, rest', hplain, hplain', _, _, h => by
    simp only [chars, List.cons_append, List.append_assoc, List.cons.injEq, true_and] at h
    obtain ⟨rfl, hbehind⟩ := word_eq_of_append hplain.1 hplain'.1
      (ends_behindHead_append arguments rest) (ends_behindHead_append arguments' rest') h
    obtain ⟨rfl, hrest⟩ := eq_of_behindHead_append arguments hplain.2 hplain'.2 hbehind
    exact ⟨rfl, hrest⟩

/-- Outlines behind a head are determined by any text that they are at the front of. -/
theorem eq_of_behindHead_append : ∀ (os : List Outline) {os' : List Outline}
    {rest rest' : List Char}, EachPlain os → EachPlain os' →
      behindHead os ++ rest = behindHead os' ++ rest' → os = os' ∧ rest = rest'
  | [], [], _, _, _, _, h => ⟨rfl, (List.cons.inj h).2⟩
  | [], _ :: _, _, _, _, _, h => absurd (List.cons.inj h).1 (by decide)
  | _ :: _, [], _, _, _, _, h => absurd (List.cons.inj h).1 (by decide)
  | o :: os, o' :: os', rest, rest', hplain, hplain', h => by
    simp only [behindHead, List.cons_append, List.append_assoc, List.cons.injEq, true_and] at h
    obtain ⟨rfl, hbehind⟩ := eq_of_append o hplain.1 hplain'.1 (ends_behindHead_append os rest)
      (ends_behindHead_append os' rest') h
    obtain ⟨rfl, hrest⟩ := eq_of_behindHead_append os hplain.2 hplain'.2 hbehind
    exact ⟨rfl, hrest⟩

end

/-- **An outline is determined by its text.** -/
theorem eq_of_text {o o' : Outline} (hplain : o.AllPlain) (hplain' : o'.AllPlain)
    (h : o.text = o'.text) : o = o' := by
  have hchars : o.chars ++ [] = o'.chars ++ [] := by rw [← toList_text, ← toList_text, h]
  exact (o.eq_of_append hplain hplain' ends_nil ends_nil hchars).1

/-- Outlines are determined by their texts. -/
theorem eq_of_texts : ∀ {os os' : List Outline}, EachPlain os → EachPlain os' →
    texts os = texts os' → os = os'
  | [], [], _, _, _ => rfl
  | [], _ :: _, _, _, h => nomatch h
  | _ :: _, [], _, _, h => nomatch h
  | _ :: _, _ :: _, hplain, hplain', h => by
    obtain ⟨htext, htexts⟩ := List.cons.inj h
    rw [eq_of_text hplain.1 hplain'.1 htext, eq_of_texts hplain.2 hplain'.2 htexts]

end Outline

/-! ## Outlines of trees -/

/-- The outline of an expression. -/
def Expr.outline : Expr → Outline
  | literal value => .word (value.elim "" Value.text)
  | grouping inner => .node "group" [inner.outline]
  | unary operator right => .node operator.lexeme [right.outline]
  | binary left operator right => .node operator.lexeme [left.outline, right.outline]
  | logical left operator right => .node operator.lexeme [left.outline, right.outline]
  | reference name => .word name.lexeme
  | assign name value => .node "=" [.word name.lexeme, value.outline]
  | misplaced _ => .word ""

mutual

/-- The outline of a statement. -/
def Stmt.outline : Stmt → Outline
  | .expression inner => .node ";" [inner.outline]
  | .print inner => .node "print" [inner.outline]
  | .declaration name none => .node "var" [.word name.lexeme]
  | .declaration name (some initializer) => .node "var" [.word name.lexeme, initializer.outline]
  | .block body => .node "block" (Stmt.outlines body)
  | .branch condition thenBranch none => .node "if" [condition.outline, thenBranch.outline]
  | .branch condition thenBranch (some elseBranch) =>
    .node "if" [condition.outline, thenBranch.outline, elseBranch.outline]
  | .loop condition body => .node "while" [condition.outline, body.outline]
  | .misplaced _ => .word ""

/-- The outlines of statements. -/
def Stmt.outlines : List Stmt → List Outline
  | [] => []
  | s :: rest => s.outline :: Stmt.outlines rest

end

end Lox
