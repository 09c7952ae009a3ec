import Mathlib.Data.Set.Lattice
import Lox.Proofs.Scope.Writes

/-! # Where a name is changed

An assignment changes the innermost scope that binds its name, and no other one. So if only names of
a set are assigned to, a scope loses the value of such a name at most, and only if no scope inside
of it binds that name.

* **`Chain.valueIn`**, **`Chain.home?`** — the value of a name in one scope, and the innermost scope
  that binds the name;
* **`Chain.Changed`** — a chain behind assignments to names of a set, and definitions in the
  innermost scope if they are allowed;
* **`Chain.Changed.valueIn_eq_or`** — what becomes of the value of a name in a scope. -/

namespace Lox

variable {defines defines' : Prop} {F F' : Set String} {x : String} {v : Option Value}

/-! ## One scope -/

namespace Bindings

variable {b b' b'' : Bindings}

/-- **A scope behind changes**: it binds what it bound, and if nothing was defined in it, only names
of `F` that it binds may have other values. -/
structure Changed (defines : Prop) (F : Set String) (b b' : Bindings) : Prop where
  names_subset : b.names ⊆ b'.names
  get?_eq_or_mem : defines ∨ ∀ x, b'.get? x = b.get? x ∨ x ∈ F ∩ b.names

/-- A name with the same binding in both scopes is bound in both or in none. -/
theorem mem_names_of_get?_eq (h : b'.get? x = b.get? x) (hx : x ∈ b'.names) : x ∈ b.names := by
  rw [mem_names, binds, ← h]
  exact hx

namespace Changed

theorem refl (b : Bindings) : b.Changed defines F b :=
  ⟨subset_rfl, .inr fun _ => .inl rfl⟩

/-- More names may be changed, and definitions may be allowed. -/
theorem mono (h : b.Changed defines F b') (himp : defines → defines') (hsub : F ⊆ F') :
    b.Changed defines' F' b' := by
  refine ⟨h.names_subset, h.get?_eq_or_mem.imp himp fun hkept y => ?_⟩
  exact (hkept y).imp_right fun hy => ⟨hsub hy.1, hy.2⟩

/-- Changes behind changes. -/
theorem trans (h : b.Changed defines F b') (h' : b'.Changed defines F b'') :
    b.Changed defines F b'' := by
  refine ⟨h.names_subset.trans h'.names_subset, ?_⟩
  rcases h.get?_eq_or_mem with hdefines | hkept
  · exact .inl hdefines
  · refine h'.get?_eq_or_mem.imp_right fun hkept' y => ?_
    rcases hkept y with heq | hy
    · -- a name that was not changed at first is bound in both scopes or in none
      exact (hkept' y).imp (fun heq' => heq'.trans heq)
        fun hy' => ⟨hy'.1, mem_names_of_get?_eq heq hy'.2⟩
    · exact .inr hy

/-- A name is set, which has to be one of `F` that the scope binds unless definitions are
allowed. -/
theorem set (h : defines ∨ x ∈ F ∩ b.names) (v : Option Value) :
    b.Changed defines F (b.set x v) := by
  refine ⟨?_, h.imp_right fun hx y => ?_⟩
  · rw [names_set]
    exact Set.subset_insert x b.names
  · by_cases hy : y = x
    · exact .inr (hy ▸ hx)
    · exact .inl (by rw [get?_set, if_neg hy])

end Changed

end Bindings

/-! ## A chain of scopes -/

namespace Chain

variable {c c' c'' d : Chain} {b b' : Bindings}

/-- **The value of a name in a scope**, which is given by how many scopes are inside of it. There is
none if the scope does not bind the name. -/
def valueIn (c : Chain) (i : Nat) (x : String) : Option (Option Value) :=
  c.scopes[i]?.bind fun b => b.get? x

@[simp] theorem valueIn_global_zero : (global b).valueIn 0 x = b.get? x := rfl

@[simp] theorem valueIn_global_succ (i : Nat) : (global b).valueIn (i + 1) x = none := rfl

@[simp] theorem valueIn_nested_zero : (nested b c).valueIn 0 x = b.get? x := rfl

@[simp] theorem valueIn_nested_succ (i : Nat) :
    (nested b c).valueIn (i + 1) x = c.valueIn i x := rfl

/-- **The innermost scope that binds a name.** -/
def home? (c : Chain) (x : String) : Option Nat := c.scopes.findIdx? fun b => b.binds x

/-- The innermost scope of a chain is the home of the names that it binds. -/
theorem home?_of_mem_own (h : x ∈ c.own.names) : c.home? x = some 0 := by
  cases c with
  | global b =>
    have hbinds : b.binds x = true := h
    simp [home?, scopes, hbinds]
  | nested b c =>
    have hbinds : b.binds x = true := h
    simp [home?, scopes, List.findIdx?_cons, hbinds]

/-- Every other name has its home in the scopes around the innermost one. -/
theorem home?_nested_of_notMem (h : x ∉ b.names) :
    (nested b c).home? x = (c.home? x).map (· + 1) := by
  have hbinds : b.binds x = false := Bool.not_eq_true _ ▸ h
  simp [home?, scopes, List.findIdx?_cons, hbinds]

/-- **A chain behind changes**: names of `F` were assigned to, and in the innermost scope names were
defined if `defines` allows it. An assignment reaches a scope only if no scope inside of it binds
the name. -/
def Changed (defines : Prop) (F : Set String) : Chain → Chain → Prop
  | global b, global b' => b.Changed defines F b'
  | nested b c, nested b' c' => b.Changed defines F b' ∧ Changed False (F \ b.names) c c'
  | global _, nested .. => False
  | nested .., global _ => False

namespace Changed

theorem refl (c : Chain) : c.Changed defines F c := by
  induction c generalizing defines F with
  | global b => exact .refl b
  | nested b c ih => exact ⟨.refl b, ih⟩

/-- More names may be changed, and definitions may be allowed. -/
theorem mono (h : c.Changed defines F c') (himp : defines → defines') (hsub : F ⊆ F') :
    c.Changed defines' F' c' := by
  induction c generalizing defines defines' F F' c' with
  | global b =>
    cases c' with
    | global b' => exact Bindings.Changed.mono h himp hsub
    | nested b' c' => exact h.elim
  | nested b c ih =>
    cases c' with
    | global b' => exact h.elim
    | nested b' c' => exact ⟨h.1.mono himp hsub, ih h.2 id (Set.sdiff_subset_sdiff_left hsub)⟩

/-- Changes behind changes. -/
theorem trans (h : c.Changed defines F c') (h' : c'.Changed defines F c'') :
    c.Changed defines F c'' := by
  induction c generalizing defines F c' c'' with
  | global b =>
    cases c' with
    | nested b' c' => exact h.elim
    | global b' =>
      cases c'' with
      | nested b'' c'' => exact h'.elim
      | global b'' => exact Bindings.Changed.trans h h'
  | nested b c ih =>
    cases c' with
    | global b' => exact h.elim
    | nested b' c' =>
      cases c'' with
      | global b'' => exact h'.elim
      | nested b'' c'' =>
        -- the changed scope hides what it hid before, and maybe more
        have hsub : F \ b'.names ⊆ F \ b.names := Set.sdiff_subset_sdiff_right h.1.names_subset
        exact ⟨h.1.trans h'.1, ih h.2 (h'.2.mono id hsub)⟩

/-- A definition is made in the innermost scope. -/
theorem define (hdefines : defines) (x : String) (v : Option Value) :
    c.Changed defines F (c.define x v) := by
  cases c with
  | global b => exact .set (.inl hdefines) v
  | nested b c => exact ⟨.set (.inl hdefines) v, .refl c⟩

/-- **An assignment** to a name of `F`. -/
theorem assign (hx : x ∈ F) (h : c.assign? x v = some d) : c.Changed defines F d := by
  induction c generalizing defines F d with
  | global b =>
    obtain ⟨hb, rfl⟩ := assign?_global_eq_some_iff.1 h
    exact .set (.inr ⟨hx, hb⟩) v
  | nested b c ih =>
    rcases assign?_nested_eq_some_iff.1 h with ⟨hb, rfl⟩ | ⟨hb, c', hc', rfl⟩
    · exact ⟨.set (.inr ⟨hx, hb⟩) v, .refl c⟩
    · -- the innermost scope does not bind the name, so it does not hide it
      have hnot : x ∉ b.names := by simp [Bindings.mem_names, hb]
      exact ⟨.refl b, ih ⟨hx, hnot⟩ hc'⟩

/-- **Whatever is changed inside a scope**, the scopes around it are assigned to at most, under
names that it does not bind. -/
theorem of_nested (h : (nested b c).Changed defines F d) :
    ∃ b' c', d = nested b' c' ∧ b.names ⊆ b'.names ∧ c.Changed False (F \ b.names) c' := by
  cases d with
  | global b' => exact h.elim
  | nested b' c' => exact ⟨b', c', rfl, h.1.names_subset, h.2⟩

/-- **The value of a name in a scope stays**, unless the name was assigned to and the scope is the
innermost one that binds it. The induction is on the scopes, from the innermost one out. -/
theorem valueIn_eq_or (h : c.Changed False F d) (i : Nat) (x : String) :
    d.valueIn i x = c.valueIn i x ∨ (x ∈ F ∧ c.home? x = some i) := by
  induction c generalizing F d i with
  | global b =>
    cases d with
    | nested b' d => exact h.elim
    | global b' =>
      cases i with
      | succ i => exact .inl (by simp only [valueIn_global_succ])
      | zero =>
        simp only [valueIn_global_zero]
        have hkept := (Bindings.Changed.get?_eq_or_mem h).resolve_left id
        exact (hkept x).imp_right fun hx => ⟨hx.1, home?_of_mem_own (c := global b) hx.2⟩
  | nested b c ih =>
    cases d with
    | global b' => exact h.elim
    | nested b' d =>
      cases i with
      | zero =>
        simp only [valueIn_nested_zero]
        have hkept := h.1.get?_eq_or_mem.resolve_left id
        exact (hkept x).imp_right fun hx => ⟨hx.1, home?_of_mem_own (c := nested b c) hx.2⟩
      | succ i =>
        simp only [valueIn_nested_succ]
        refine (ih h.2 i).imp_right fun ⟨hx, hhome⟩ => ⟨hx.1, ?_⟩
        rw [home?_nested_of_notMem hx.2, hhome]
        rfl

end Changed

end Chain

end Lox
