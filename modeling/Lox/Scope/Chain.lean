import Lox.Scope.Bindings

/-! # Chains of scopes

While a program runs its scopes form a chain, from the innermost one out to the global one.

* **`Chain.get?`** — the binding of a name in the innermost scope that has one;
* **`Chain.assign?`** — changes the binding of a name there; it never creates one;
* **`Chain.define`** — binds a name in the innermost scope, whatever the outer ones bind;
* **`Chain.enter`**, **`Chain.leave`** — open and close a scope. -/

namespace Lox

/-- The scopes in force, innermost first. -/
inductive Chain
  | global (own : Bindings)
  | nested (own : Bindings) (enclosing : Chain)

namespace Chain

/-- A global scope that binds nothing. -/
def empty : Chain := global .empty

/-- The bindings of the innermost scope. -/
def own : Chain → Bindings
  | global b => b
  | nested b _ => b

/-- The bindings of the global scope. -/
def globals : Chain → Bindings
  | global b => b
  | nested _ c => c.globals

/-- The bindings of the scopes, innermost first. -/
def scopes : Chain → List Bindings
  | global b => [b]
  | nested b c => b :: c.scopes

/-- How many scopes enclose the innermost one. -/
def depth : Chain → Nat
  | global _ => 0
  | nested _ c => c.depth + 1

/-- Whether the innermost scope is the global one. -/
def isGlobal : Chain → Bool
  | global _ => true
  | nested .. => false

/-- The innermost binding of a name. -/
def get? : Chain → String → Option (Option Value)
  | global b, x => b.get? x
  | nested b c, x => match b.get? x with
    | some v => some v
    | none => c.get? x

/-- Binds a name in the innermost scope. -/
def define (x : String) (value : Option Value) : Chain → Chain
  | global b => global (b.set x value)
  | nested b c => nested (b.set x value) c

/-- Changes the innermost binding of a name, if there is one. -/
def assign? (x : String) (value : Option Value) : Chain → Option Chain
  | global b => if b.binds x then some (global (b.set x value)) else none
  | nested b c =>
    if b.binds x then some (nested (b.set x value) c)
    else (assign? x value c).map (nested b)

/-- Opens a scope inside the innermost one. -/
def enter (c : Chain) : Chain := nested .empty c

/-- Closes the innermost scope; the global one stays open. -/
def leave : Chain → Chain
  | global b => global b
  | nested _ c => c

/-- A chain has one scope more than enclose its innermost one. -/
@[simp] theorem length_scopes (c : Chain) : c.scopes.length = c.depth + 1 := by
  induction c with
  | global b => rfl
  | nested b c ih => simp [scopes, depth, ih]

/-- A name is looked up in the scopes from the innermost one out. -/
theorem get?_eq_findSome? (c : Chain) (x : String) :
    c.get? x = c.scopes.findSome? fun b => b.get? x := by
  induction c with
  | global b => cases h : b.get? x <;> simp [get?, scopes, h]
  | nested b c ih => cases h : b.get? x <;> simp [get?, scopes, h, ih]

@[simp] theorem leave_enter (c : Chain) : c.enter.leave = c := rfl

@[simp] theorem depth_enter (c : Chain) : c.enter.depth = c.depth + 1 := rfl

@[simp] theorem depth_define (x : String) (value : Option Value) (c : Chain) :
    (c.define x value).depth = c.depth := by cases c <;> rfl

/-- A definition is what its own name is bound to, and changes no other name. -/
theorem get?_define (c : Chain) (x y : String) (value : Option Value) :
    (c.define x value).get? y = if y = x then some value else c.get? y := by
  cases c with
  | global b => simp [define, get?, Bindings.get?_set]
  | nested b c =>
    by_cases h : y = x
    · simp [define, get?, h]
    · simp [define, get?, Bindings.get?_set, h]

/-- Assigning keeps the number of scopes. -/
theorem depth_assign? {c c' : Chain} {x : String} {value : Option Value}
    (h : c.assign? x value = some c') : c'.depth = c.depth := by
  induction c generalizing c' with
  | global b =>
    simp only [assign?] at h
    split at h <;> simp at h
    subst h
    rfl
  | nested b c ih =>
    simp only [assign?] at h
    split at h
    · simp at h
      subst h
      rfl
    · obtain ⟨d, hd, rfl⟩ := Option.map_eq_some_iff.1 h
      simp [depth, ih hd]

end Chain

end Lox
