import Lox.Run.Machine
import Lox.Proofs.Scope.Resolution

/-! # Chains in a forest

The scopes of a running program form a chain. Each scope of a forest shows such a chain, made of
itself and of the scopes around it, and whatever is done to the chain can be done in the forest: the
scope still shows the chain then.

* **`Forest.Shows`** — a scope of a forest shows a chain;
* **`Forest.exists_shows`**, **`Forest.Shows.unique`** — each scope shows exactly one;
* **`Forest.Shows.exists_forest`** — each chain is shown by a scope of some forest;
* **`Forest.Shows.define`**, **`Forest.Shows.assign`**, **`Forest.Shows.enter`**,
  **`Forest.Shows.leave`** — the operations on chains;
* **`Forest.Shows.lookup_agrees`**, **`Forest.Shows.assign_agrees`** — what a run does to its chain
  ends as it does in the forest, with the same error if it fails. -/

namespace Lox.Forest

variable {f g : Forest} {i j k e : Nat} {x : String} {v : Option Value} {b : Bindings} {c d : Chain}

/-- **A scope of a forest shows a chain**: its own bindings inside of what the scope around it
shows. -/
inductive Shows (f : Forest) : Nat → Chain → Prop
  | global {i : Nat} {b : Bindings} (h : f.scopes[i]? = some ⟨none, b⟩) : Shows f i (.global b)
  | nested {i e : Nat} {b : Bindings} {c : Chain} (h : f.scopes[i]? = some ⟨some e, b⟩)
      (hc : Shows f e c) : Shows f i (.nested b c)

/-- Every scope shows a chain. -/
theorem exists_shows (hi : i < f.scopes.size) : ∃ c, f.Shows i c := by
  induction i using f.outward_induction with
  | h i ih =>
    obtain ⟨⟨enclosing, own⟩, hs⟩ : ∃ s, f.scopes[i]? = some s :=
      ⟨_, Array.getElem?_eq_getElem hi⟩
    cases enclosing with
    | none => exact ⟨_, .global hs⟩
    | some e =>
      have he : f.enclosing? i = some e := enclosing?_of_getElem? hs
      obtain ⟨c, hc⟩ := ih e he (Nat.lt_trans (lt_of_enclosing? he) hi)
      exact ⟨_, .nested hs hc⟩

/-- A scope is one deeper than the scope around it. -/
theorem depth_eq_elim (f : Forest) (i : Nat) :
    f.depth i = (f.enclosing? i).elim 0 fun e => f.depth e + 1 := by
  rw [depth]
  split
  · rename_i hs
    simp [enclosing?, hs]
  · rename_i s hs
    rw [enclosing?_of_getElem? hs]
    split <;> simp_all

/-- A scope that binds a name is the one that the name is assigned to in. -/
theorem assign?_of_binds (h : f.binds i x = true) (v : Option Value) :
    f.assign? i x v = some (f.define i x v) := by
  rw [assign?, resolve?_eq, if_pos h]
  rfl

/-- Any other scope leaves the assignment to the one around it, if there is one. -/
theorem assign?_of_not_binds (h : f.binds i x = false) (v : Option Value) :
    f.assign? i x v = (f.enclosing? i).bind fun e => f.assign? e x v := by
  rw [assign?, resolve?_eq, if_neg (by simp [h])]
  cases f.enclosing? i <;> rfl

/-- An assignment leaves the scopes that were opened later alone. -/
theorem getElem?_of_assign? (h : f.assign? e x v = some g) (he : e < k) :
    g.scopes[k]? = f.scopes[k]? := by
  obtain ⟨j, hj, rfl⟩ := Option.map_eq_some_iff.1 h
  rw [resolve?_eq_home?] at hj
  have hle : j ≤ e := (home?_eq_some_iff.1 hj).1.le
  rw [getElem?_define, if_neg (by omega)]

namespace Shows

/-- A scope that shows a chain is one of the forest. -/
theorem lt_size (h : f.Shows i c) : i < f.scopes.size := by
  cases h with
  | global hs => exact (Array.getElem?_eq_some_iff.1 hs).1
  | nested hs _ => exact (Array.getElem?_eq_some_iff.1 hs).1

/-- A scope shows no other chain. -/
theorem unique (h : f.Shows i c) (h' : f.Shows i d) : c = d := by
  induction h generalizing d with
  | global hs => cases h' <;> simp_all
  | nested hs _ ih =>
    cases h' with
    | global hs' => simp_all
    | nested hs' hc' =>
      cases hs.symm.trans hs'
      rw [ih hc']

/-- What a scope shows depends on it and on scopes that were opened before it. -/
theorem congr (h : f.Shows i c) (hg : ∀ k ≤ i, g.scopes[k]? = f.scopes[k]?) : g.Shows i c := by
  induction h with
  | @global i b hs => exact .global ((hg i (Nat.le_refl i)).trans hs)
  | @nested i e b c hs _ ih =>
    have he : e < i := f.enclosed_earlier i _ hs e rfl
    exact .nested ((hg i (Nat.le_refl i)).trans hs) (ih fun k hk => hg k (by omega))

/-- What scopes show stays when another one is opened. -/
theorem addScope (h : f.Shows i c) (enclosing : Option Nat) : (f.addScope enclosing).Shows i c := by
  refine h.congr fun k hk => ?_
  have hlt : k < f.scopes.size := Nat.lt_of_le_of_lt hk h.lt_size
  rw [Forest.addScope, Array.getElem?_push, if_neg (by omega)]

/-! ## Operations on chains -/

/-- Names are bound to the same in a scope and in the chain that it shows. -/
theorem get?_eq (h : f.Shows i c) (x : String) : f.get? i x = c.get? x := by
  induction h with
  | global hs =>
    rw [Forest.get?_eq, valueIn_of_getElem? hs, enclosing?_of_getElem? hs]
    exact Option.or_none
  | @nested i e b c hs _ ih =>
    rw [Forest.get?_eq, valueIn_of_getElem? hs, enclosing?_of_getElem? hs, Option.bind_some, ih,
      Chain.get?]
    cases b.get? x <;> rfl

/-- **A definition** in a scope is one in the chain that it shows. -/
theorem define (h : f.Shows i c) (x : String) (v : Option Value) :
    (f.define i x v).Shows i (c.define x v) := by
  cases h with
  | global hs => exact .global (by rw [getElem?_define, if_pos rfl, hs]; rfl)
  | @nested _ e b c hs hc =>
    have he : e < i := f.enclosed_earlier i _ hs e rfl
    refine .nested (by rw [getElem?_define, if_pos rfl, hs]; rfl) (hc.congr fun k hk => ?_)
    rw [getElem?_define, if_neg (by omega)]

/-- **An assignment** seen from a scope is one in the chain that it shows: both change a binding, or
the name is bound in neither. -/
theorem assign (h : f.Shows i c) (x : String) (v : Option Value) :
    (∃ g d, f.assign? i x v = some g ∧ c.assign? x v = some d ∧ g.Shows i d) ∨
      (f.assign? i x v = none ∧ c.assign? x v = none) := by
  induction h with
  | @global i b hs =>
    have henclosing : f.enclosing? i = none := enclosing?_of_getElem? hs
    have hbinds : f.binds i x = b.binds x := binds_of_getElem? hs
    rw [Chain.assign?]
    cases hb : b.binds x with
    | true =>
      exact .inl ⟨_, _, assign?_of_binds (hbinds.trans hb) v, rfl, (Shows.global hs).define x v⟩
    | false =>
      refine .inr ⟨?_, rfl⟩
      rw [assign?_of_not_binds (hbinds.trans hb), henclosing]
      rfl
  | @nested i e b c hs hc ih =>
    have henclosing : f.enclosing? i = some e := enclosing?_of_getElem? hs
    have hbinds : f.binds i x = b.binds x := binds_of_getElem? hs
    rw [Chain.assign?]
    cases hb : b.binds x with
    | true =>
      exact .inl ⟨_, _, assign?_of_binds (hbinds.trans hb) v, rfl, (Shows.nested hs hc).define x v⟩
    | false =>
      -- the scope around is assigned to, in the forest as in the chain
      rw [assign?_of_not_binds (hbinds.trans hb), henclosing, Option.bind_some]
      rcases ih with ⟨g, d, hg, hd, hshows⟩ | ⟨hg, hd⟩
      · refine .inl ⟨g, _, hg, by rw [hd]; rfl, .nested ?_ hshows⟩
        exact (getElem?_of_assign? hg (lt_of_enclosing? henclosing)).trans hs
      · exact .inr ⟨hg, by rw [hd]; rfl⟩

/-- **A scope that is opened** inside another one shows the chain with a scope more. -/
theorem enter (h : f.Shows i c) :
    (f.addScope (some i)).Shows f.scopes.size c.enter := by
  have hi : i < f.scopes.size := h.lt_size
  refine .nested (e := i) ?_ (h.addScope (some i))
  simp [Forest.addScope, hi]

/-- **Closing** the innermost scope of a chain leads back to the scope around it. -/
theorem leave (h : f.Shows i (.nested b c)) :
    ∃ e, f.enclosing? i = some e ∧ f.Shows e (Chain.nested b c).leave := by
  cases h with
  | @nested _ e _ _ hs hc => exact ⟨e, enclosing?_of_getElem? hs, hc⟩

/-- As many scopes are around a scope as enclose the innermost one of its chain. -/
theorem depth_eq (h : f.Shows i c) : f.depth i = c.depth := by
  induction h with
  | global hs =>
    rw [depth_eq_elim, enclosing?_of_getElem? hs]
    rfl
  | nested hs _ ih =>
    rw [depth_eq_elim, enclosing?_of_getElem? hs, Option.elim_some, ih]
    rfl

/-- **Every chain is shown** by a scope of some forest. -/
theorem exists_forest (c : Chain) : ∃ (f : Forest) (i : Nat), f.Shows i c := by
  induction c with
  | global b => exact ⟨(empty.addScope none).modify 0 fun _ => b, 0, .global rfl⟩
  | nested b c ih =>
    obtain ⟨f, i, h⟩ := ih
    have hi : i < f.scopes.size := h.lt_size
    refine ⟨(f.addScope (some i)).modify f.scopes.size fun _ => b, f.scopes.size,
      .nested (e := i) ?_ ((h.addScope (some i)).congr fun k hk => ?_)⟩
    · rw [modify, Array.getElem?_modify, if_pos rfl]
      simp [Forest.addScope, hi]
    · rw [modify, Array.getElem?_modify, if_neg (by omega)]

/-! ## Runs -/

variable {m : Machine}

/-- **A name is looked up by a run** as it is in the forest, and a name that is bound nowhere is
blamed alike. -/
theorem lookup_agrees (h : f.Shows i m.chain) (name : Token) :
    Run.lookup name m = match f.lookup i name with
      | .ok value => .ok value m
      | .error error => .error (.error error) m := by
  rw [Run.lookup, Forest.lookup, h.get?_eq]
  cases m.chain.get? name.lexeme <;> rfl

/-- **A name is assigned to by a run** as it is in the forest: the scope shows the chain behind the
assignment, or both fail and blame the name alike. -/
theorem assign_agrees (h : f.Shows i m.chain) (name : Token) (v : Option Value) :
    (∃ g m', Forest.assign i name v f = .ok () g ∧ Run.assign name v m = .ok () m' ∧
      g.Shows i m'.chain) ∨
    ∃ error, Forest.assign i name v f = .error error f ∧
      Run.assign name v m = .error (.error error) m := by
  rw [Run.assign, Forest.assign]
  rcases h.assign name.lexeme v with ⟨g, d, hg, hd, hshows⟩ | ⟨hg, hd⟩
  · rw [hg, hd]
    exact .inl ⟨g, _, rfl, rfl, hshows⟩
  · rw [hg, hd]
    exact .inr ⟨_, rfl, rfl⟩

end Shows

end Lox.Forest
