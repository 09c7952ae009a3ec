import Mathlib.Data.Option.Basic
import Lox.Scope.Forest

/-! # Where names of a forest belong

A scope of a forest is seen from many others. A name belongs to the first scope that binds it, from
the given one out. So what a scope binds is seen from itself and from the scopes inside of it, but
for those on whose way out another scope binds the name first.

* **`Forest.around`** — a scope and those around it, from the innermost one out;
* **`Forest.home?`** — the first of them that binds a name;
* **`Forest.InSight`** — a scope that is around another one, and no scope on the way binds the name;
* **`Forest.get?_define_of_inSight`**, **`Forest.get?_define_of_not_inSight`** — what a definition
  changes, and what it leaves alone;
* **`Forest.store_laws`** — look-ups, assignments and definitions in a forest. -/

namespace Lox.Forest

variable {f g : Forest} {i j k e : Nat} {x y : String} {v w : Option Value}

/-! ## One scope -/

/-- What scope `i` itself binds a name to. -/
def valueIn (f : Forest) (i : Nat) (x : String) : Option (Option Value) :=
  f.scopes[i]?.bind fun s => s.own.get? x

/-- Whether scope `i` itself binds a name. -/
def binds (f : Forest) (i : Nat) (x : String) : Bool := (f.valueIn i x).isSome

/-- The scope right around scope `i`. -/
def enclosing? (f : Forest) (i : Nat) : Option Nat := f.scopes[i]?.bind Scope.enclosing

section
variable {s : Scope}

theorem valueIn_of_getElem? (hs : f.scopes[i]? = some s) : f.valueIn i x = s.own.get? x := by
  rw [valueIn, hs, Option.bind_some]

theorem binds_of_getElem? (hs : f.scopes[i]? = some s) : f.binds i x = s.own.binds x := by
  rw [binds, valueIn_of_getElem? hs, Bindings.binds]

theorem enclosing?_of_getElem? (hs : f.scopes[i]? = some s) : f.enclosing? i = s.enclosing := by
  rw [enclosing?, hs, Option.bind_some]

end

theorem binds_eq_true_iff : f.binds i x = true ↔ ∃ v, f.valueIn i x = some v :=
  Option.isSome_iff_exists

theorem binds_eq_false_iff : f.binds i x = false ↔ f.valueIn i x = none := by simp [binds]

/-- The scope around another one was opened before it. -/
theorem lt_of_enclosing? (h : f.enclosing? i = some e) : e < i := by
  obtain ⟨s, hs, he⟩ := Option.bind_eq_some_iff.1 h
  exact f.enclosed_earlier i s hs e he

/-- A scope that does not exist binds no name. -/
theorem valueIn_of_size_le (h : f.scopes.size ≤ i) : f.valueIn i x = none := by
  rw [valueIn, Array.getElem?_eq_none h]
  rfl

/-- A scope that binds a name is one of the forest. -/
theorem lt_size_of_binds (h : f.binds i x = true) : i < f.scopes.size := by
  by_contra hi
  rw [binds_eq_false_iff.2 (valueIn_of_size_le (Nat.le_of_not_lt hi))] at h
  cases h

/-- There is no scope around one that does not exist. -/
theorem enclosing?_of_size_le (h : f.scopes.size ≤ i) : f.enclosing? i = none := by
  rw [enclosing?, Array.getElem?_eq_none h]
  rfl

/-- **Induction from the outside in**: what holds of a scope if it holds of the one around it, holds
of every scope, for every way out of a scope ends. -/
theorem outward_induction (f : Forest) {P : Nat → Prop}
    (h : ∀ i, (∀ e, f.enclosing? i = some e → P e) → P i) (i : Nat) : P i := by
  induction i using Nat.strongRecOn with
  | ind i ih => exact h i fun e he => ih e (lt_of_enclosing? he)

/-! ## The way out of a scope -/

/-- **A scope and those around it**, from the innermost one out. -/
def around (f : Forest) (i : Nat) : List Nat :=
  if i < f.scopes.size then
    i :: match h : f.enclosing? i with
      | none => []
      | some e =>
        have : e < i := lt_of_enclosing? h
        f.around e
  else []
termination_by i

/-- **The first scope that binds a name**, from scope `i` out. -/
def home? (f : Forest) (i : Nat) (x : String) : Option Nat :=
  (f.around i).find? fun k => f.binds k x

/-- **Scope `i` is in sight of scope `j`** under a name: the way out of scope `j` reaches it, and no
scope passed before binds the name. -/
def InSight (f : Forest) (x : String) (j i : Nat) : Prop :=
  ∃ inside outside, f.around j = inside ++ i :: outside ∧ ∀ k ∈ inside, f.binds k x = false

/-- There is no way out of a scope that does not exist. -/
theorem around_of_size_le (h : f.scopes.size ≤ i) : f.around i = [] := by
  rw [around, if_neg (Nat.not_lt.2 h)]

/-- The way out of a scope starts there, and goes on as that of the scope around. -/
theorem around_of_lt_size (h : i < f.scopes.size) :
    f.around i = i :: (f.enclosing? i).elim [] f.around := by
  rw [around, if_pos h]
  split <;> simp_all

/-- A name is at home in a scope that binds it, and any other one is where it is for the scope
around. -/
theorem home?_eq (f : Forest) (j : Nat) (x : String) :
    f.home? j x = if f.binds j x then some j else (f.enclosing? j).bind fun e => f.home? e x := by
  rcases Nat.lt_or_ge j f.scopes.size with hj | hj
  · rw [home?, around_of_lt_size hj, List.find?_cons]
    cases f.binds j x <;> cases f.enclosing? j <;> rfl
  · rw [home?, around_of_size_le hj, enclosing?_of_size_le hj,
      binds_eq_false_iff.2 (valueIn_of_size_le hj)]
    rfl

/-- **The home of a name** is the scope in sight that binds it. -/
theorem home?_eq_some_iff : f.home? j x = some k ↔ f.InSight x j k ∧ f.binds k x = true := by
  rw [home?, List.find?_eq_some_iff_append, InSight, and_comm]
  simp

/-- A scope is in sight of itself, and of any other scope that does not bind the name if it is in
sight of the one around. -/
theorem inSight_iff : f.InSight x j i ↔
    j = i ∧ i < f.scopes.size ∨
      f.binds j x = false ∧ ∃ e, f.enclosing? j = some e ∧ f.InSight x e i := by
  rcases Nat.lt_or_ge j f.scopes.size with hj | hj
  · rw [InSight, around_of_lt_size hj]
    constructor
    · rintro ⟨inside, outside, hway, hnone⟩
      cases inside with
      | nil =>
        obtain ⟨rfl, -⟩ := List.cons.inj hway
        exact .inl ⟨rfl, hj⟩
      | cons k inside =>
        obtain ⟨rfl, hrest⟩ := List.cons.inj hway
        obtain ⟨hk, hinside⟩ := List.forall_mem_cons.1 hnone
        cases he : f.enclosing? j with
        | none => simp [he] at hrest
        | some e =>
          rw [he] at hrest
          exact .inr ⟨hk, e, rfl, inside, outside, hrest, hinside⟩
    · rintro (⟨rfl, -⟩ | ⟨hk, e, he, inside, outside, hrest, hinside⟩)
      · exact ⟨[], _, rfl, by simp⟩
      · rw [he]
        exact ⟨j :: inside, outside, congrArg (j :: ·) hrest, List.forall_mem_cons.2 ⟨hk, hinside⟩⟩
  · rw [InSight, around_of_size_le hj, enclosing?_of_size_le hj]
    constructor
    · rintro ⟨inside, outside, hway, -⟩
      simp at hway
    · rintro (⟨rfl, hi⟩ | ⟨-, e, he, -⟩)
      · omega
      · cases he

/-! ## Look-ups -/

/-- The scope that a name is resolved to is found from the given scope out. -/
theorem resolve?_eq (f : Forest) (j : Nat) (x : String) :
    f.resolve? j x =
      if f.binds j x then some j else (f.enclosing? j).bind fun e => f.resolve? e x := by
  rw [resolve?]
  split
  · rename_i hs
    simp [binds, valueIn, enclosing?, hs]
  · rename_i s hs
    rw [binds_of_getElem? hs, enclosing?_of_getElem? hs]
    split
    · rfl
    · split <;> simp_all

/-- **A name is resolved to its home.** -/
theorem resolve?_eq_home? (f : Forest) (j : Nat) (x : String) : f.resolve? j x = f.home? j x := by
  induction j using f.outward_induction with
  | h j ih =>
    rw [resolve?_eq, home?_eq]
    cases he : f.enclosing? j with
    | none => rfl
    | some e => rw [Option.bind_some, Option.bind_some, ih e he]

/-- **What a name is bound to** is what its home binds it to. -/
theorem get?_eq_bind_home? (f : Forest) (j : Nat) (x : String) :
    f.get? j x = (f.home? j x).bind fun k => f.valueIn k x := by
  rw [← resolve?_eq_home?]
  rfl

/-- A name is looked up in a scope, and then in the one around it. -/
theorem get?_eq (f : Forest) (j : Nat) (x : String) :
    f.get? j x = (f.valueIn j x).or ((f.enclosing? j).bind fun e => f.get? e x) := by
  rw [get?_eq_bind_home?, home?_eq]
  cases hbinds : f.binds j x with
  | true =>
    obtain ⟨v, hv⟩ := binds_eq_true_iff.1 hbinds
    simp [hv]
  | false =>
    rw [binds_eq_false_iff.1 hbinds]
    cases f.enclosing? j with
    | none => rfl
    | some e => simp [get?_eq_bind_home?]

/-! ## Definitions -/

/-- A definition changes the bindings of one scope. -/
theorem getElem?_define (f : Forest) (i : Nat) (x : String) (v : Option Value) (k : Nat) :
    (f.define i x v).scopes[k]? =
      if i = k then f.scopes[k]?.map fun s => { s with own := s.own.set x v } else f.scopes[k]? :=
  Array.getElem?_modify

@[simp] theorem size_define (f : Forest) (i : Nat) (x : String) (v : Option Value) :
    (f.define i x v).scopes.size = f.scopes.size :=
  Array.size_modify

/-- A definition leaves scopes around each other. -/
@[simp] theorem enclosing?_define (f : Forest) (i : Nat) (x : String) (v : Option Value) (k : Nat) :
    (f.define i x v).enclosing? k = f.enclosing? k := by
  rw [enclosing?, getElem?_define]
  split <;> simp [enclosing?, Option.bind_map]

/-- What a scope binds a name to behind its definition there. -/
theorem valueIn_define_self (hi : i < f.scopes.size) (x : String) (v : Option Value) :
    (f.define i x v).valueIn i x = some v := by
  rw [valueIn, getElem?_define, if_pos rfl, Array.getElem?_eq_getElem hi]
  simp

/-- A definition changes one binding only. -/
theorem valueIn_define_of_ne (h : ¬ (k = i ∧ y = x)) (v : Option Value) :
    (f.define i x v).valueIn k y = f.valueIn k y := by
  rw [valueIn, getElem?_define]
  split
  · rename_i hk
    have hy : y ≠ x := fun hy => h ⟨hk.symm, hy⟩
    simp [valueIn, Option.bind_map, Bindings.get?_set, hy]
  · rfl

/-- A scope binds its own names and the one that is defined in it. -/
theorem binds_define_self (hi : i < f.scopes.size) (x : String) (v : Option Value) :
    (f.define i x v).binds i x = true :=
  binds_eq_true_iff.2 ⟨v, valueIn_define_self hi x v⟩

theorem binds_define_of_ne (h : ¬ (k = i ∧ y = x)) (v : Option Value) :
    (f.define i x v).binds k y = f.binds k y := by
  rw [binds, valueIn_define_of_ne h, binds]

/-- A scope in sight is one of the forest. -/
theorem InSight.lt_size (h : f.InSight x j i) : i < f.scopes.size := by
  induction j using f.outward_induction with
  | h j ih =>
    rcases inSight_iff.1 h with ⟨-, hi⟩ | ⟨-, e, he, hsight⟩
    · exact hi
    · exact ih e he hsight

/-- A scope is in sight of no scope that was opened before it. -/
theorem InSight.le (h : f.InSight x j i) : i ≤ j := by
  induction j using f.outward_induction with
  | h j ih =>
    rcases inSight_iff.1 h with ⟨rfl, -⟩ | ⟨-, e, he, hsight⟩
    · exact Nat.le_refl j
    · exact Nat.le_trans (ih e he hsight) (Nat.le_of_lt (lt_of_enclosing? he))

/-- **A definition is seen** from every scope that its own scope is in sight of. -/
theorem get?_define_of_inSight (h : f.InSight x j i) (v : Option Value) :
    (f.define i x v).get? j x = some v := by
  induction j using f.outward_induction with
  | h j ih =>
    rw [get?_eq, enclosing?_define]
    by_cases hj : j = i
    · rw [hj, valueIn_define_self h.lt_size]
      rfl
    · rcases inSight_iff.1 h with ⟨rfl, -⟩ | ⟨hbinds, e, he, hsight⟩
      · exact absurd rfl hj
      · rw [valueIn_define_of_ne fun hji => hj hji.1, binds_eq_false_iff.1 hbinds, he,
          Option.none_or, Option.bind_some, ih e he hsight]

/-- **A definition is seen from nowhere else**: under another name, or from a scope that its own
scope is not in sight of, all names are bound to what they were. -/
theorem get?_define_of_not_inSight (h : ¬ (y = x ∧ f.InSight x j i)) (v : Option Value) :
    (f.define i x v).get? j y = f.get? j y := by
  induction j using f.outward_induction with
  | h j ih =>
    rw [get?_eq, get?_eq f, enclosing?_define]
    by_cases hji : j = i ∧ y = x
    · -- the scope is in sight of itself, unless it does not exist
      obtain ⟨rfl, rfl⟩ := hji
      have hj : f.scopes.size ≤ j := by
        by_contra hj
        exact h ⟨rfl, inSight_iff.2 (.inl ⟨rfl, Nat.lt_of_not_le hj⟩)⟩
      rw [enclosing?_of_size_le hj, valueIn_of_size_le hj,
        valueIn_of_size_le (by rwa [size_define])]
      rfl
    · rw [valueIn_define_of_ne hji]
      cases hvalue : f.valueIn j y with
      | some w => rfl
      | none =>
        cases he : f.enclosing? j with
        | none => rfl
        | some e =>
          have hnot : ¬ (y = x ∧ f.InSight x e i) := by
            rintro ⟨rfl, hsight⟩
            exact h ⟨rfl, inSight_iff.2 (.inr ⟨binds_eq_false_iff.2 hvalue, e, he, hsight⟩)⟩
          rw [Option.none_or, Option.none_or, Option.bind_some, Option.bind_some, ih e he hnot]

/-- A definition is in sight from where its scope was. -/
theorem inSight_define_iff : (f.define i x v).InSight x j i ↔ f.InSight x j i := by
  induction j using f.outward_induction with
  | h j ih =>
    rw [inSight_iff, inSight_iff (f := f), size_define, enclosing?_define]
    by_cases hj : j = i
    · by_cases hi : i < f.scopes.size
      · simp [hj, hi]
      · simp [hj, enclosing?_of_size_le (Nat.le_of_not_lt hi)]
    · rw [binds_define_of_ne fun hji => hj hji.1]
      refine or_congr_right (and_congr_right fun _ => exists_congr fun e => ?_)
      exact and_congr_right fun he => ih e he

/-- **The home of a name behind its definition** is the scope of the definition exactly for the
scopes that this scope was in sight of. -/
theorem home?_define_eq_some_iff : (f.define i x v).home? j x = some i ↔ f.InSight x j i := by
  rw [home?_eq_some_iff, inSight_define_iff]
  exact and_iff_left_of_imp fun h => binds_define_self h.lt_size x v

/-! ## Names of tokens -/

variable {name other : Token} {error : RuntimeError}

/-- A name is bound to something exactly if it has a home. -/
theorem get?_eq_some_iff :
    f.get? j x = some w ↔ ∃ k, f.home? j x = some k ∧ f.valueIn k x = some w := by
  rw [get?_eq_bind_home?, Option.bind_eq_some_iff]

/-- A name without a home is bound to nothing, and every other one is bound to something. -/
theorem get?_eq_none_iff : f.get? j x = none ↔ f.home? j x = none := by
  rw [get?_eq_bind_home?]
  cases hhome : f.home? j x with
  | none => simp
  | some k =>
    obtain ⟨v, hv⟩ := binds_eq_true_iff.1 (home?_eq_some_iff.1 hhome).2
    simp [hv]

/-- **A look-up** finds what the home of the name binds it to. -/
theorem lookup_eq_ok_iff : f.lookup j name = .ok w ↔
    ∃ k, f.home? j name.lexeme = some k ∧ f.valueIn k name.lexeme = some w := by
  rw [← get?_eq_some_iff, lookup]
  cases f.get? j name.lexeme <;> simp

/-- **A look-up fails** at its token exactly if the name has no home. -/
theorem lookup_eq_error_iff : f.lookup j name = .error error ↔
    f.home? j name.lexeme = none ∧ error = ⟨name, .undefinedVariable⟩ := by
  rw [← get?_eq_none_iff, lookup]
  cases f.get? j name.lexeme <;> simp [eq_comm]

/-- A look-up depends on what the name is bound to only. -/
theorem lookup_congr (h : g.get? j name.lexeme = f.get? j name.lexeme) :
    g.lookup j name = f.lookup j name := by
  rw [lookup, lookup, h]

/-- A name that is bound is looked up. -/
theorem lookup_of_get? (h : f.get? j name.lexeme = some w) : f.lookup j name = .ok w := by
  rw [lookup, h]

/-- **An assignment** is a definition in the home of the name. -/
theorem assign_eq_ok_iff : assign i name v f = .ok () g ↔
    ∃ k, f.home? i name.lexeme = some k ∧ g = f.define k name.lexeme v := by
  rw [assign, assign?, resolve?_eq_home?]
  cases f.home? i name.lexeme <;> simp [eq_comm]

/-- **An assignment fails** at its token exactly if the name has no home, and changes nothing
then. -/
theorem assign_eq_error_iff : assign i name v f = .error error g ↔
    f.home? i name.lexeme = none ∧ error = ⟨name, .undefinedVariable⟩ ∧ g = f := by
  rw [assign, assign?, resolve?_eq_home?]
  cases f.home? i name.lexeme <;> simp [eq_comm]

/-- The home of a name is in sight exactly of those scopes that it is the home for. -/
theorem inSight_home_iff (hk : f.home? i x = some k) :
    f.InSight x j k ↔ f.home? j x = f.home? i x := by
  rw [hk, home?_eq_some_iff]
  exact (and_iff_left (home?_eq_some_iff.1 hk).2).symm

/-- A definition of a name that its scope binds already binds no name anew. -/
theorem binds_define_of_binds (h : f.binds i x = true) (v : Option Value) (k : Nat) (y : String) :
    (f.define i x v).binds k y = f.binds k y := by
  by_cases hky : k = i ∧ y = x
  · obtain ⟨rfl, rfl⟩ := hky
    rw [h, binds_define_self (lt_size_of_binds h)]
  · exact binds_define_of_ne hky v

/-- **The store laws of a forest.** A look-up finds what the home of the name binds it to, and fails
at its token exactly if the name has no home. An assignment succeeds exactly if the name has a home.
Then the value is found by every look-up of the name for which it has the same home, every other
look-up finds what it found before, and each scope binds the same names. An assignment that fails
leaves the forest as it was. A definition is found under its name from exactly those scopes that its
own scope is in sight of, and every other look-up finds what it found before. -/
theorem store_laws (f : Forest) :
    (∀ (j : Nat) (name : Token),
      (∀ w, f.lookup j name = .ok w ↔
        ∃ k, f.home? j name.lexeme = some k ∧ f.valueIn k name.lexeme = some w) ∧
      ∀ error, f.lookup j name = .error error ↔
        f.home? j name.lexeme = none ∧ error = ⟨name, .undefinedVariable⟩) ∧
    (∀ (i : Nat) (name : Token) (v : Option Value),
      ((∃ g, assign i name v f = .ok () g) ↔ ∃ k, f.home? i name.lexeme = some k) ∧
      (∀ g, assign i name v f = .ok () g →
        (∀ (j : Nat) (other : Token), other.lexeme = name.lexeme →
          f.home? j name.lexeme = f.home? i name.lexeme → g.lookup j other = .ok v) ∧
        (∀ (j : Nat) (other : Token),
          ¬ (other.lexeme = name.lexeme ∧ f.home? j name.lexeme = f.home? i name.lexeme) →
            g.lookup j other = f.lookup j other) ∧
        ∀ k y, g.binds k y = f.binds k y) ∧
      ∀ error g, assign i name v f = .error error g →
        error = ⟨name, .undefinedVariable⟩ ∧ g = f) ∧
    ∀ (i : Nat) (x : String) (v : Option Value) (j : Nat),
      ((f.define i x v).home? j x = some i ↔ f.InSight x j i) ∧
      (∀ name : Token, name.lexeme = x → f.InSight x j i →
        (f.define i x v).lookup j name = .ok v) ∧
      ∀ name : Token, ¬ (name.lexeme = x ∧ f.InSight x j i) →
        (f.define i x v).lookup j name = f.lookup j name := by
  refine ⟨fun j name => ⟨fun w => lookup_eq_ok_iff, fun error => lookup_eq_error_iff⟩,
    fun i name v => ⟨?_, fun g hg => ?_, fun error g hg => (assign_eq_error_iff.1 hg).2⟩,
    fun i x v j => ⟨home?_define_eq_some_iff, ?_, fun name hname => ?_⟩⟩
  · constructor
    · rintro ⟨g, hg⟩
      obtain ⟨k, hk, -⟩ := assign_eq_ok_iff.1 hg
      exact ⟨k, hk⟩
    · rintro ⟨k, hk⟩
      exact ⟨_, assign_eq_ok_iff.2 ⟨k, hk, rfl⟩⟩
  · obtain ⟨k, hk, rfl⟩ := assign_eq_ok_iff.1 hg
    refine ⟨fun j other hother hj => ?_, fun j other hother => ?_, ?_⟩
    · refine lookup_of_get? ?_
      rw [hother]
      exact get?_define_of_inSight ((inSight_home_iff hk).2 hj) v
    · refine lookup_congr (get?_define_of_not_inSight ?_ v)
      rwa [inSight_home_iff hk]
    · exact binds_define_of_binds (home?_eq_some_iff.1 hk).2 v
  · rintro name rfl hsight
    exact lookup_of_get? (get?_define_of_inSight hsight v)
  · exact lookup_congr (get?_define_of_not_inSight hname v)

/-- Scopes 0, 1 and 2 are inside each other, and scope 3 is inside scope 0. A name that scopes 0 and
1 bind is assigned to from scope 2: the change is seen from scope 1, and not from scope 3. Defined in
scope 0, the name is seen from scope 3, and not from scope 2. -/
theorem store_laws_of_hidden_name :
    let opened : Forest :=
      (((addScope none empty).addScope (some 0)).addScope (some 1)).addScope (some 0)
    let f := (opened.define 0 "a" (some .nil)).define 1 "a" (some (.boolean true))
    let a : Token := ⟨.identifier, "a", none, 1⟩
    let b : Token := ⟨.identifier, "b", none, 1⟩
    let v : Option Value := some (.string "v")
    (f.home? 2 "a" = some 1 ∧ f.home? 1 "a" = some 1 ∧ f.home? 3 "a" = some 0) ∧
    (∃ g, assign 2 a v f = .ok () g ∧ g.lookup 1 a = .ok v ∧ g.lookup 3 a = f.lookup 3 a) ∧
    (∃ error g, assign 2 b v f = .error error g ∧ error = ⟨b, .undefinedVariable⟩ ∧ g = f) ∧
    (f.InSight "a" 3 0 ∧ (f.define 0 "a" v).lookup 3 a = .ok v) ∧
    ¬ f.InSight "a" 2 0 ∧ (f.define 0 "a" v).lookup 2 a = f.lookup 2 a := by
  intro opened f a b v
  obtain ⟨-, hassign, hdefine⟩ := store_laws f
  have hhome₂ : f.home? 2 "a" = some 1 := by decide +kernel
  have hhome₁ : f.home? 1 "a" = some 1 := by decide +kernel
  have hhome₃ : f.home? 3 "a" = some 0 := by decide +kernel
  obtain ⟨hsucceeds, hwritten, -⟩ := hassign 2 a v
  obtain ⟨g, hg⟩ := hsucceeds.2 ⟨1, hhome₂⟩
  obtain ⟨hfound, hkept, -⟩ := hwritten g hg
  have hfails : assign 2 b v f = .error ⟨b, .undefinedVariable⟩ f :=
    assign_eq_error_iff.2 ⟨by decide +kernel, rfl, rfl⟩
  have hsight : f.InSight "a" 3 0 := ⟨[3], [], by decide +kernel, by decide +kernel⟩
  have hhidden : ¬ f.InSight "a" 2 0 := by
    rw [← (hdefine 0 "a" v 2).1]
    decide +kernel
  refine ⟨⟨hhome₂, hhome₁, hhome₃⟩, ⟨g, hg, ?_, ?_⟩, ⟨_, _, hfails, (hassign 2 b v).2.2 _ _ hfails⟩,
    ⟨hsight, (hdefine 0 "a" v 3).2.1 a rfl hsight⟩, hhidden,
    (hdefine 0 "a" v 2).2.2 a fun h => hhidden h.2⟩
  · exact hfound 1 a rfl (hhome₁.trans hhome₂.symm)
  · refine hkept 3 a fun h => ?_
    rw [hhome₃, hhome₂] at h
    exact absurd h.2 (by decide)

end Lox.Forest
