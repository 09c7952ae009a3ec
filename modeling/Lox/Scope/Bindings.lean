import Lox.Value

/-! # The bindings of one scope

A scope binds each of its names to what an expression yielded. `Bindings` keeps the names in
increasing order, so that two scopes with the same bindings are equal.

* **`Bindings.get?`** — the binding of a name;
* **`Bindings.set`** — binds a name, anew or for the first time;
* **`Bindings.get?_set`** — a binding is seen under its own name and under no other. -/

namespace Lox

/-- Binds a name among names in increasing order. -/
def bindSorted (name : String) (value : Option Value) :
    List (String × Option Value) → List (String × Option Value)
  | [] => [(name, value)]
  | (k, v) :: rest =>
    if name < k then (name, value) :: (k, v) :: rest
    else if name = k then (name, value) :: rest
    else (k, v) :: bindSorted name value rest

/-- Binding a name adds no other one. -/
theorem mem_bindSorted {name : String} {value : Option Value} {entry : String × Option Value}
    {entries : List (String × Option Value)} (h : entry ∈ bindSorted name value entries) :
    entry = (name, value) ∨ entry ∈ entries := by
  induction entries with
  | nil => simpa [bindSorted] using h
  | cons e rest ih =>
    obtain ⟨k, v⟩ := e
    simp only [bindSorted] at h
    split at h
    · simpa using h
    · split at h
      · rcases List.mem_cons.1 h with h | h
        · exact .inl h
        · exact .inr (List.mem_cons_of_mem _ h)
      · rcases List.mem_cons.1 h with h | h
        · exact .inr (h ▸ List.mem_cons_self)
        · exact (ih h).imp_right (List.mem_cons_of_mem _)

/-- Binding a name keeps the names in order. -/
theorem pairwise_bindSorted {name : String} {value : Option Value}
    {entries : List (String × Option Value)} (h : entries.Pairwise fun a b => a.1 < b.1) :
    (bindSorted name value entries).Pairwise fun a b => a.1 < b.1 := by
  induction entries with
  | nil => simp [bindSorted]
  | cons e rest ih =>
    obtain ⟨k, v⟩ := e
    obtain ⟨hk, hrest⟩ := List.pairwise_cons.1 h
    simp only [bindSorted]
    split
    · rename_i hlt
      refine List.pairwise_cons.2 ⟨fun b hb => ?_, h⟩
      rcases List.mem_cons.1 hb with rfl | hb
      · exact hlt
      · exact String.lt_trans hlt (hk b hb)
    · split
      · rename_i heq
        subst heq
        exact List.pairwise_cons.2 ⟨hk, hrest⟩
      · rename_i hlt hne
        refine List.pairwise_cons.2 ⟨fun b hb => ?_, ih hrest⟩
        rcases mem_bindSorted hb with rfl | hb
        · exact Std.lt_of_le_of_ne (Std.not_lt.1 hlt) (Ne.symm hne)
        · exact hk b hb

/-- The bindings of one scope, in increasing order of their names. -/
structure Bindings where
  entries : List (String × Option Value) := []
  sorted : entries.Pairwise (fun a b => a.1 < b.1) := by simp

namespace Bindings

/-- A scope that binds nothing. -/
def empty : Bindings := {}

/-- The binding of a name. -/
def get? (b : Bindings) (name : String) : Option (Option Value) := b.entries.lookup name

/-- Whether a name is bound. -/
def binds (b : Bindings) (name : String) : Bool := (b.get? name).isSome

/-- Binds a name, in place of what it was bound to. -/
def set (b : Bindings) (name : String) (value : Option Value) : Bindings :=
  ⟨bindSorted name value b.entries, pairwise_bindSorted b.sorted⟩

@[simp] theorem get?_empty (name : String) : empty.get? name = none := rfl

/-- Looking a name up goes through the entries in order. -/
theorem lookup_cons_eq_ite (x k : String) (v : Option Value)
    (rest : List (String × Option Value)) :
    ((k, v) :: rest).lookup x = if x = k then some v else rest.lookup x := by
  rw [List.lookup_cons]
  by_cases h : x = k
  · simp [h]
  · have h' : (x == k) = false := by simpa using h
    simp [h, h']

/-- **A binding is seen under its own name and under no other.** -/
theorem get?_set (b : Bindings) (name x : String) (value : Option Value) :
    (b.set name value).get? x = if x = name then some value else b.get? x := by
  obtain ⟨entries, sorted⟩ := b
  simp only [get?, set]
  clear sorted
  induction entries with
  | nil => simp [bindSorted, lookup_cons_eq_ite]
  | cons e rest ih =>
    obtain ⟨k, v⟩ := e
    simp only [bindSorted]
    split
    · simp only [lookup_cons_eq_ite]
    · split
      · rename_i heq
        subst heq
        simp only [lookup_cons_eq_ite]
        split <;> rfl
      · rename_i hne
        simp only [lookup_cons_eq_ite, ih]
        by_cases hxk : x = k
        · subst hxk
          simp [Ne.symm hne]
        · simp [hxk]

@[simp] theorem get?_set_self (b : Bindings) (name : String) (value : Option Value) :
    (b.set name value).get? name = some value := by simp [get?_set]

end Bindings

end Lox
