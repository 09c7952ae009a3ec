import Lox.Proofs.Source.Numerals

/-! # What a piece starts with

The first character of a piece says of which form it is; how far it goes depends on what follows.
The two are taken apart here, so that facts about pieces are facts about eight forms.

* **`Piece.Head`**, **`Piece.head`** — the form that a first character announces;
* **`Piece.fits_head`** — what is known of a character that announces a form;
* **`Piece.Head.measure`**, **`Piece.measure_eq`** — how far a piece of a form goes. -/

namespace Lox.Piece

/-- The forms of pieces, as their first characters tell them apart. -/
inductive Head
  | single (kind : TokenKind)
  | growing (withEqual alone : TokenKind)
  | slash
  | blank
  | quote
  | digit
  | letter
  | other

/-- The form that a first character announces. -/
def head (c : Char) : Head :=
  if let some kind := singleOperator? c then .single kind
  else if let some (withEqual, alone) := growingOperator? c then .growing withEqual alone
  else if c = '/' then .slash
  else if c = ' ' ∨ c = '\r' ∨ c = '\t' ∨ c = '\n' then .blank
  else if c = '"' then .quote
  else if isDigit c then .digit
  else if isLetter c then .letter
  else .other

/-- A character is of the class that a form starts with. -/
def Head.Fits (c : Char) : Head → Prop
  | single kind => singleOperator? c = some kind
  | growing withEqual alone => growingOperator? c = some (withEqual, alone)
  | slash => c = '/'
  | blank => c = ' ' ∨ c = '\r' ∨ c = '\t' ∨ c = '\n'
  | quote => c = '"'
  | digit => isDigit c = true
  | letter => isLetter c = true
  | other => True

/-- A character announces only forms that start with its class. -/
theorem fits_head (c : Char) : (head c).Fits c := by
  unfold head
  repeat' split
  all_goals first
    | assumption
    | trivial

/-- The kind of a piece of a form, and how many of the characters behind its first one it takes. -/
def Head.measure (rest : List Char) : Head → PieceKind × Nat
  | single kind => (.operator kind, 0)
  | growing withEqual alone =>
    if rest.head? = some '=' then (.operator withEqual, 1) else (.operator alone, 0)
  | slash =>
    if rest.head? = some '/' then (.comment, commentLength rest.tail + 1)
    else (.operator .slash, 0)
  | blank => (.blank, 0)
  | quote => match stringLength? rest with
    | some n => (.string, n)
    | none => (.unterminated, rest.length)
  | digit => (.number, numberLength rest)
  | letter => (.word, wordLength rest)
  | other => (.unexpected, 0)

/-- **A piece goes as far as its form goes.** -/
theorem measure_eq (c : Char) (rest : List Char) : measure c rest = (head c).measure rest := by
  unfold measure head
  cases hsingle : singleOperator? c with
  | some kind => rfl
  | none =>
    cases hgrowing : growingOperator? c with
    | some kinds =>
      cases rest with
      | nil => rfl
      | cons d more =>
        by_cases hd : d = '='
        · subst hd
          rfl
        · simp [Head.measure, hd]
    | none =>
      by_cases hslash : c = '/'
      · simp only [if_pos hslash]
        cases rest with
        | nil => rfl
        | cons d more =>
          by_cases hd : d = '/'
          · subst hd
            rfl
          · simp [Head.measure, hd]
      · simp only [if_neg hslash, apply_ite (Head.measure rest)]
        rfl

end Lox.Piece
