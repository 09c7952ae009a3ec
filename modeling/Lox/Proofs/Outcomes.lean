/-! # How actions end

The rules of the grammar, the actions of a run and those of a session all act on a state and end
with a result or an error. The equivalences here say when an action that is put together from others
ends in one way or the other. -/

namespace Lox

variable {ε σ α β : Type} {s s' : σ}

/-- Two actions succeed one after the other iff the second does on what the first leaves. -/
theorem bind_eq_ok_iff {x : EStateM ε σ α} {f : α → EStateM ε σ β} {b : β} :
    (x >>= f) s = .ok b s' ↔ ∃ a mid, x s = .ok a mid ∧ f a mid = .ok b s' := by
  show EStateM.bind x f s = .ok b s' ↔ _
  unfold EStateM.bind
  cases x s with
  | error e mid => simp
  | ok a mid =>
    constructor
    · intro h
      exact ⟨a, mid, rfl, h⟩
    · rintro ⟨a', mid', hx, h⟩
      cases hx
      exact h

/-- Two actions fail one after the other iff the first fails, or the second does on what the first
leaves. -/
theorem bind_eq_error_iff {x : EStateM ε σ α} {f : α → EStateM ε σ β} {e : ε} :
    (x >>= f) s = .error e s' ↔
      x s = .error e s' ∨ ∃ a mid, x s = .ok a mid ∧ f a mid = .error e s' := by
  show EStateM.bind x f s = .error e s' ↔ _
  unfold EStateM.bind
  cases x s with
  | error e' mid => simp
  | ok a mid =>
    constructor
    · intro h
      exact .inr ⟨a, mid, rfl, h⟩
    · rintro (hx | ⟨a', mid', hx, h⟩)
      · cases hx
      · cases hx
        exact h

/-- Behind an action that succeeds the other one goes on. -/
theorem bind_eq_of_eq_ok {x : EStateM ε σ α} {a : α} (h : x s = .ok a s') (f : α → EStateM ε σ β) :
    (x >>= f) s = f a s' := by
  show EStateM.bind x f s = f a s'
  unfold EStateM.bind
  rw [h]

/-- A result that is worked on is left where it was found. -/
theorem map_eq_ok_iff {x : EStateM ε σ α} {f : α → β} {b : β} :
    (f <$> x) s = .ok b s' ↔ ∃ a, x s = .ok a s' ∧ f a = b := by
  show EStateM.map f x s = .ok b s' ↔ _
  unfold EStateM.map
  cases x s with
  | error e mid => simp
  | ok a mid =>
    constructor
    · intro h
      cases h
      exact ⟨a, rfl, rfl⟩
    · rintro ⟨a', hx, rfl⟩
      cases hx
      rfl

/-- Work on a result does not fail. -/
theorem map_eq_error_iff {x : EStateM ε σ α} {f : α → β} {e : ε} :
    (f <$> x) s = .error e s' ↔ x s = .error e s' := by
  show EStateM.map f x s = .error e s' ↔ _
  unfold EStateM.map
  cases x s with
  | error e mid => simp
  | ok a mid => simp

/-- A result that is at hand leaves the state. -/
@[simp] theorem pure_eq_ok_iff {a b : α} :
    (pure a : EStateM ε σ α) s = .ok b s' ↔ a = b ∧ s = s' := by
  show EStateM.Result.ok a s = .ok b s' ↔ _
  simp

/-- An action that gives up does not succeed. -/
@[simp] theorem throw_ne_ok (e : ε) (a : α) : (throw e : EStateM ε σ α) s ≠ .ok a s' := by
  intro h
  cases h

/-- What follows an action does not see an answer that was dropped. -/
theorem discard_bind (x : EStateM ε σ α) (f : Unit → EStateM ε σ β) :
    discard x >>= f = x >>= fun _ => f () :=
  bind_map_left (fun _ => ()) x f

/-- An answer may as well be dropped behind the action. -/
theorem discard_eq_bind (x : EStateM ε σ α) : discard x = x >>= fun _ => pure () :=
  map_eq_pure_bind _ x

end Lox
