import Lox.Report
import Lox.Scope.Bindings

/-! # Forests of scopes

Scopes can also be kept side by side, numbered in the order they were opened, each one on its own
or inside an earlier one. A name is looked up along the scopes that enclose one another: it belongs
to the first of them that binds it.

* **`Forest.resolve?`** — the scope that a name belongs to, seen from a given scope;
* **`Forest.get?`**, **`Forest.assign?`** — the binding there, and its change;
* **`Forest.define`** — a binding in the given scope itself;
* **`Forest.lookup`**, **`Forest.assign`** — the same for the name of a token, which is blamed where
  the name is bound nowhere. -/

namespace Lox

/-- A scope of a forest: its bindings, and the number of the scope around it. -/
structure Scope where
  enclosing : Option Nat
  own : Bindings

/-- Scopes numbered from 0, each inside an earlier one or inside none. -/
structure Forest where
  scopes : Array Scope := #[]
  enclosed_earlier : ∀ (i : Nat) (s : Scope), scopes[i]? = some s → ∀ e ∈ s.enclosing, e < i := by
    simp

namespace Forest

/-- No scope at all. -/
def empty : Forest := {}

/-- Opens a scope; a scope that is to be inside one that does not exist is on its own. -/
def addScope (enclosing : Option Nat) (f : Forest) : Forest where
  scopes := f.scopes.push ⟨enclosing.filter (· < f.scopes.size), .empty⟩
  enclosed_earlier i s h e he := by
    rw [Array.getElem?_push] at h
    split at h
    · simp at h
      subst h
      simp_all
    · exact f.enclosed_earlier i s h e he

/-- Changes the bindings of one scope. -/
def modify (i : Nat) (change : Bindings → Bindings) (f : Forest) : Forest where
  scopes := f.scopes.modify i fun s => { s with own := change s.own }
  enclosed_earlier j s h e he := by
    rw [Array.getElem?_modify] at h
    split at h
    · obtain ⟨s', hs', rfl⟩ := Option.map_eq_some_iff.1 h
      exact f.enclosed_earlier j s' hs' e he
    · exact f.enclosed_earlier j s h e he

/-- The scope that a name belongs to, seen from scope `i`. -/
def resolve? (f : Forest) (i : Nat) (x : String) : Option Nat :=
  match h : f.scopes[i]? with
  | none => none
  | some s =>
    if s.own.binds x then some i
    else match he : s.enclosing with
      | none => none
      | some e =>
        have : e < i := f.enclosed_earlier i s h e (by simp [he])
        f.resolve? e x
termination_by i

/-- What a name is bound to, seen from scope `i`. -/
def get? (f : Forest) (i : Nat) (x : String) : Option (Option Value) := do
  let j ← f.resolve? i x
  let s ← f.scopes[j]?
  s.own.get? x

/-- Binds a name in scope `i` itself. -/
def define (i : Nat) (x : String) (value : Option Value) (f : Forest) : Forest :=
  f.modify i (·.set x value)

/-- Changes what a name is bound to, seen from scope `i`, if it is bound at all. -/
def assign? (i : Nat) (x : String) (value : Option Value) (f : Forest) : Option Forest :=
  (f.resolve? i x).map fun j => f.define j x value

/-- What the name of a token is bound to, seen from scope `i`. -/
def lookup (f : Forest) (i : Nat) (name : Token) : Except RuntimeError (Option Value) :=
  match f.get? i name.lexeme with
  | some value => .ok value
  | none => .error ⟨name, .undefinedVariable⟩

/-- Changes what the name of a token is bound to, seen from scope `i`. -/
def assign (i : Nat) (name : Token) (value : Option Value) : EStateM RuntimeError Forest Unit :=
  fun f => match f.assign? i name.lexeme value with
    | some f' => .ok () f'
    | none => .error ⟨name, .undefinedVariable⟩ f

/-- How many scopes are around scope `i`. -/
def depth (f : Forest) (i : Nat) : Nat :=
  match h : f.scopes[i]? with
  | none => 0
  | some s => match he : s.enclosing with
    | none => 0
    | some e =>
      have : e < i := f.enclosed_earlier i s h e (by simp [he])
      f.depth e + 1
termination_by i

/-- The bindings of every scope, in the order the scopes were opened. -/
def bindings (f : Forest) : List Bindings := f.scopes.toList.map Scope.own

end Forest

end Lox
