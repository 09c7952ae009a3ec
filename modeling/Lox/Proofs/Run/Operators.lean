import Lox.Proofs.Run.Drawn
import Lox.Run.Operators

/-! # What operators come to

An operator that stands at its place yields a value, or it raises a runtime error whose kind goes
with the kind of the operator. Nothing else happens: every quotient that is asked for has a divisor
other than zero.

* **`RuntimeErrorKind.places`** — the kinds of tokens at which an error can be raised for a reason;
* **`Run.exists_divide_eq_ok`** — any two numbers can be divided;
* **`Run.applyUnary_eq_or`**, **`Run.applyBinary_eq_or`** — all that an operator can come to. -/

namespace Lox

/-- The kinds of tokens at which an error can be raised for a reason. -/
def RuntimeErrorKind.places : RuntimeErrorKind → List TokenKind
  | undefinedVariable => [.identifier]
  | operandNotNumber => [.minus]
  | operandsNotAddable => [.plus]
  | operandsNotNumbers => [.minus, .star, .slash, .greater, .greaterEqual, .less, .lessEqual]

namespace Run

/-- An error that an operator can raise: its kind goes with the kind of the operator. -/
def RaisedBy (operator : Token) (kind : RuntimeErrorKind) : Prop :=
  operator.kind ∈ kind.places ∧ kind ≠ .undefinedVariable

variable {operator : Token}

/-- Any two numbers can be divided. -/
theorem exists_divide_eq_ok (a b : Float) : ∃ q, divide a b = .ok q := by
  unfold divide quotient
  by_cases hzero : (b == 0) = true
  · rw [if_pos hzero]
    split
    · exact ⟨_, rfl⟩
    · exact ⟨_, rfl⟩
  · rw [if_neg hzero, if_neg hzero]
    exact ⟨_, rfl⟩

/-- An operator that applies to numbers yields a value on any two of them. -/
theorem exists_onNumbers_eq_ok {kind : TokenKind}
    (h : kind ∈ RuntimeErrorKind.operandsNotNumbers.places) (a b : Float) :
    ∃ v, onNumbers a b kind = .ok v := by
  simp only [RuntimeErrorKind.places, List.mem_cons, List.not_mem_nil, or_false] at h
  obtain ⟨q, hq⟩ := exists_divide_eq_ok a b
  rcases h with rfl | rfl | rfl | rfl | rfl | rfl | rfl
  case inr.inr.inl => exact ⟨.number q, by rw [onNumbers, hq]; rfl⟩
  all_goals exact ⟨_, rfl⟩

/-- What a sign comes to: it yields a value, or an error of its own. -/
theorem applyUnary_eq_or (h : operator.kind ∈ Surface.signKinds) (v : Option Value) :
    (∃ u, applyUnary operator v = pure (some u)) ∨
      ∃ kind, RaisedBy operator kind ∧ applyUnary operator v = abort operator kind := by
  simp only [Surface.signKinds, List.mem_cons, List.not_mem_nil, or_false] at h
  unfold applyUnary
  rcases h with h | h
  · rw [h]
    exact .inl ⟨_, rfl⟩
  · rw [h]
    simp only
    split
    · exact .inl ⟨_, rfl⟩
    · exact .inr ⟨.operandNotNumber, ⟨by rw [h]; decide, by decide⟩, rfl⟩

/-- An operator that asks neither for equality nor for a sum applies to numbers. -/
theorem mem_places_of_mem_binaryKinds {kind : TokenKind} (h : kind ∈ binaryKinds)
    (hequal : kind ≠ .equalEqual) (hdiffer : kind ≠ .bangEqual) (hplus : kind ≠ .plus) :
    kind ∈ RuntimeErrorKind.operandsNotNumbers.places := by
  have hall : ∀ k ∈ binaryKinds, k = .equalEqual ∨ k = .bangEqual ∨ k = .plus ∨
      k ∈ RuntimeErrorKind.operandsNotNumbers.places := by decide
  rcases hall kind h with h | h | h | h
  · exact absurd h hequal
  · exact absurd h hdiffer
  · exact absurd h hplus
  · exact h

/-- What an operator between two operands comes to: it yields a value, or an error of its own. -/
theorem applyBinary_eq_or (h : operator.kind ∈ binaryKinds) (v w : Option Value) :
    (∃ u, applyBinary operator v w = pure (some u)) ∨
      ∃ kind, RaisedBy operator kind ∧ applyBinary operator v w = abort operator kind := by
  unfold applyBinary
  split
  · exact .inl ⟨_, rfl⟩
  · exact .inl ⟨_, rfl⟩
  · rename_i hplus
    split
    · exact .inl ⟨_, rfl⟩
    · exact .inl ⟨_, rfl⟩
    · exact .inr ⟨.operandsNotAddable, ⟨by rw [hplus]; decide, by decide⟩, rfl⟩
  · rename_i hequal hdiffer hplus
    have hplace := mem_places_of_mem_binaryKinds h hequal hdiffer hplus
    split
    · rename_i a b
      obtain ⟨u, hu⟩ := exists_onNumbers_eq_ok hplace a b
      rw [hu]
      exact .inl ⟨u, rfl⟩
    · exact .inr ⟨.operandsNotNumbers, ⟨hplace, by decide⟩, rfl⟩

end Run

end Lox
