import Mathlib.Data.Set.Insert
import Lox.Scope.Chain

/-! # Writing to the scopes of a chain

Scopes are written to in two ways: a definition binds a name in the innermost scope, and an
assignment changes the innermost binding that a name has. Whatever is written, the scopes stay the
same ones in the same order, and no name is lost; assignments alone bind no name either.

* **`Chain.names`** — the names that each scope binds;
* **`Chain.get?_of_assign?`** — what names are bound to behind an assignment;
* **`Chain.Written`** — a chain behind definitions and assignments, or behind assignments alone;
* **`Chain.Written.of_nested`** — whatever is written inside a scope, the scopes around it are
  assigned to at most. -/

namespace Lox

/-! ## Names -/

namespace Bindings

variable {b : Bindings} {x y : String}

/-- The names that a scope binds. -/
def names (b : Bindings) : Set String := {x | b.binds x = true}

theorem mem_names : x ∈ b.names ↔ b.binds x = true := Iff.rfl

/-- A name that is set is bound, and every other one is if it was. -/
theorem binds_set (b : Bindings) (x y : String) (v : Option Value) :
    (b.set x v).binds y = (decide (y = x) || b.binds y) := by
  unfold binds
  rw [get?_set]
  by_cases h : y = x <;> simp [h]

/-- Binding a name adds it to the names of the scope. -/
theorem names_set (b : Bindings) (x : String) (v : Option Value) :
    (b.set x v).names = insert x b.names := by
  ext y
  rw [Set.mem_insert_iff, mem_names, mem_names, binds_set]
  simp

end Bindings

namespace Chain

variable {c c' d : Chain} {b : Bindings} {x y : String} {v : Option Value} {defines : Prop}

/-- The names that each scope binds, the innermost scope first. -/
def names (c : Chain) : List (Set String) := c.scopes.map Bindings.names

@[simp] theorem names_global : (global b).names = [b.names] := rfl

@[simp] theorem names_nested : (nested b c).names = b.names :: c.names := rfl

/-- Chains with as many scopes are both at the global scope, or neither is. -/
theorem isGlobal_eq_of_depth_eq (h : c.depth = d.depth) : c.isGlobal = d.isGlobal := by
  cases c with
  | global b =>
    cases d with
    | global b' => rfl
    | nested b' d => cases h
  | nested b c =>
    cases d with
    | global b' => cases h
    | nested b' d => rfl

/-- An opened scope binds no name. -/
@[simp] theorem names_enter (c : Chain) : c.enter.names = ∅ :: c.names := by
  have hempty : Bindings.empty.names = ∅ := by
    ext x
    simp [Bindings.mem_names, Bindings.binds]
  rw [enter, names_nested, hempty]

/-- A definition adds its name to the innermost scope. -/
theorem names_define (c : Chain) (x : String) (v : Option Value) :
    (c.define x v).names = c.names.modifyHead (insert x) := by
  cases c <;> simp [define, Bindings.names_set]

/-! ## Assignments -/

/-- A name can be assigned to exactly if it is bound. -/
theorem assign?_eq_none_iff : c.assign? x v = none ↔ c.get? x = none := by
  induction c with
  | global b =>
    cases h : b.get? x with
    | none => simp [assign?, get?, Bindings.binds, h]
    | some w => simp [assign?, get?, Bindings.binds, h]
  | nested b c ih =>
    cases h : b.get? x with
    | none => simp [assign?, get?, Bindings.binds, h, ih]
    | some w => simp [assign?, get?, Bindings.binds, h]

/-- An assignment in nested scopes changes the innermost scope if that binds the name, and the
scopes around it if not. -/
theorem assign?_nested_eq_some_iff :
    (nested b c).assign? x v = some d ↔
      (b.binds x = true ∧ d = nested (b.set x v) c) ∨
        (b.binds x = false ∧ ∃ c', c.assign? x v = some c' ∧ d = nested b c') := by
  rw [assign?]
  cases b.binds x with
  | true => simp [eq_comm]
  | false => simp [Option.map_eq_some_iff, @eq_comm _ _ d]

/-- A global scope is assigned to if it binds the name. -/
theorem assign?_global_eq_some_iff :
    (global b).assign? x v = some d ↔ b.binds x = true ∧ d = global (b.set x v) := by
  rw [assign?]
  cases b.binds x <;> simp [eq_comm]

/-- A scope that binds nothing leaves assignments to the scopes around it. -/
theorem assign?_nested_empty_eq_some_iff :
    (nested .empty c).assign? x v = some d ↔
      ∃ c', c.assign? x v = some c' ∧ d = nested .empty c' := by
  rw [assign?_nested_eq_some_iff]
  constructor
  · rintro (⟨hbinds, -⟩ | ⟨-, h⟩)
    · cases hbinds
    · exact h
  · exact fun h => .inr ⟨rfl, h⟩

/-- **An assignment** is what its own name is bound to, and changes no other name. -/
theorem get?_of_assign? (h : c.assign? x v = some d) (y : String) :
    d.get? y = if y = x then some v else c.get? y := by
  induction c generalizing d with
  | global b =>
    obtain ⟨-, rfl⟩ := assign?_global_eq_some_iff.1 h
    exact Bindings.get?_set b x y v
  | nested b c ih =>
    rcases assign?_nested_eq_some_iff.1 h with ⟨-, rfl⟩ | ⟨hb, c', hc', rfl⟩
    · by_cases hy : y = x
      · simp [get?, hy]
      · simp [get?, Bindings.get?_set, hy]
    · -- the innermost scope does not bind the name, so it hides nothing of the change
      rw [get?, get?, ih hc']
      by_cases hy : y = x
      · subst hy
        have hnone : b.get? y = none := by simpa [Bindings.binds] using hb
        simp [hnone]
      · simp [hy]

/-- **An assignment** binds no name anew. -/
theorem names_of_assign? (h : c.assign? x v = some d) : d.names = c.names := by
  induction c generalizing d with
  | global b =>
    obtain ⟨hb, rfl⟩ := assign?_global_eq_some_iff.1 h
    simp [Bindings.names_set, Set.insert_eq_of_mem (Bindings.mem_names.2 hb)]
  | nested b c ih =>
    rcases assign?_nested_eq_some_iff.1 h with ⟨hb, rfl⟩ | ⟨-, c', hc', rfl⟩
    · simp [Bindings.names_set, Set.insert_eq_of_mem (Bindings.mem_names.2 hb)]
    · simp [ih hc']

/-! ## Chains that are written to -/

/-- **A chain behind writes to its scopes**: assignments, and definitions in the innermost scope if
`defines` allows them. The scopes are the ones that were there, in the same order. -/
inductive Written (defines : Prop) (c : Chain) : Chain → Prop
  | refl : Written defines c c
  | define {d : Chain} (h : Written defines c d) (hdefines : defines) (x : String)
      (v : Option Value) : Written defines c (d.define x v)
  | assign {d d' : Chain} {x : String} {v : Option Value} (h : Written defines c d)
      (hd : d.assign? x v = some d') : Written defines c d'

namespace Written

/-- Writes behind writes. -/
theorem trans (h : Written defines c c') (h' : Written defines c' d) : Written defines c d := by
  induction h' with
  | refl => exact h
  | define h' hdefines x v ih => exact ih.define hdefines x v
  | assign h' hd ih => exact ih.assign hd

/-- Where more is allowed, the same may be written. -/
theorem mono {defines' : Prop} (h : Written defines c d) (himp : defines → defines') :
    Written defines' c d := by
  induction h with
  | refl => exact .refl
  | define h hdefines x v ih => exact ih.define (himp hdefines) x v
  | assign h hd ih => exact ih.assign hd

/-- No scope is opened or closed. -/
theorem depth_eq (h : Written defines c d) : d.depth = c.depth := by
  induction h with
  | refl => rfl
  | define h hdefines x v ih => rw [depth_define, ih]
  | assign h hd ih => rw [depth_assign? hd, ih]

/-- **Assignments alone** leave every scope the names that it binds. -/
theorem names_eq (h : Written False c d) : d.names = c.names := by
  induction h with
  | refl => rfl
  | define h hdefines => exact hdefines.elim
  | assign h hd ih => rw [names_of_assign? hd, ih]

/-- A name that is bound stays bound. -/
theorem isSome_get? (h : Written defines c d) (hx : (c.get? x).isSome = true) :
    (d.get? x).isSome = true := by
  induction h with
  | refl => exact hx
  | define h hdefines y v ih =>
    rw [get?_define]
    split
    · rfl
    · exact ih
  | assign h hd ih =>
    rw [get?_of_assign? hd]
    split
    · rfl
    · exact ih

/-- **Whatever is written inside a scope**, the scopes around it are assigned to at most. -/
theorem of_nested (h : Written defines (nested b c) d) :
    ∃ b' c', d = nested b' c' ∧ Written False c c' := by
  induction h with
  | refl => exact ⟨b, c, rfl, .refl⟩
  | define h hdefines x v ih =>
    obtain ⟨b', c', rfl, hc⟩ := ih
    exact ⟨b'.set x v, c', rfl, hc⟩
  | @assign _ _ x v h hd ih =>
    obtain ⟨b', c', rfl, hc⟩ := ih
    rcases assign?_nested_eq_some_iff.1 hd with ⟨-, rfl⟩ | ⟨-, c'', hc'', rfl⟩
    · exact ⟨b'.set x v, c', rfl, hc⟩
    · exact ⟨b', c'', rfl, hc.assign hc''⟩

/-- Assignments inside a scope that binds nothing are all made to the scopes around it. -/
theorem of_nested_empty (h : Written False (nested .empty c) d) :
    ∃ c', d = nested .empty c' ∧ Written False c c' := by
  induction h with
  | refl => exact ⟨c, rfl, .refl⟩
  | define h hdefines => exact hdefines.elim
  | assign h hd ih =>
    obtain ⟨c', rfl, hc⟩ := ih
    obtain ⟨c'', hc'', rfl⟩ := assign?_nested_empty_eq_some_iff.1 hd
    exact ⟨c'', rfl, hc.assign hc''⟩

/-- Behind an opened scope that is closed again the scopes around it are assigned to at most. -/
theorem leave (h : Written defines c.enter d) : Written False c d.leave := by
  obtain ⟨b', c', rfl, hc⟩ := of_nested h
  exact hc

end Written

end Chain

end Lox
