import Lox.Proofs.Run.Programs

/-! # More rounds

The rounds that are granted to loops decide whether a run ends, and nothing else about it: a run
that ends within its rounds does the same when more of them are granted.

* **`Run.Within`** — an action does as another one does, unless its rounds are used up;
* **`Run.within_execute`**, **`Run.within_program`** — statements and programs do as they do with
  more rounds. -/

namespace Lox.Run

variable {α β : Type}

/-- The first action does as the second one does, unless it stops because its rounds are used
up. -/
def Within (x y : Run α) : Prop := ∀ m, (∃ m', x m = .error .exhausted m') ∨ x m = y m

/-- An action that loops have no part in. -/
theorem Within.refl (x : Run α) : Within x x := fun _ => .inr rfl

/-- One action after the other. -/
theorem Within.bind {x y : Run α} {f g : α → Run β} (h : Within x y)
    (hf : ∀ a, Within (f a) (g a)) : Within (x >>= f) (y >>= g) := by
  intro m
  rcases h m with ⟨m', hstop⟩ | hsame
  · exact .inl ⟨m', bind_eq_error_iff.2 (.inl hstop)⟩
  · show (∃ m', EStateM.bind x f m = _) ∨ EStateM.bind x f m = EStateM.bind y g m
    unfold EStateM.bind
    rw [← hsame]
    cases x m with
    | ok a mid => exact hf a mid
    | error stop mid => exact .inr rfl

/-- The same work before it. -/
theorem Within.bind_left (x : Run α) {f g : α → Run β} (hf : ∀ a, Within (f a) (g a)) :
    Within (x >>= f) (x >>= g) :=
  (Within.refl x).bind hf

/-- The same work behind it. -/
theorem Within.bind_right {x y : Run α} (h : Within x y) (f : α → Run β) :
    Within (x >>= f) (y >>= f) :=
  h.bind fun a => Within.refl (f a)

/-- Work on an answer. -/
theorem Within.map {x y : Run α} (h : Within x y) (f : α → β) : Within (f <$> x) (f <$> y) := by
  rw [map_eq_pure_bind, map_eq_pure_bind]
  exact h.bind_right _

/-- A scope of its own is closed, whether the rounds suffice or not. -/
theorem Within.inScope {x y : Run α} (h : Within x y) : Within (inScope x) (inScope y) := by
  intro m
  rw [inScope_eq, inScope_eq]
  rcases h (entered m) with ⟨m', hstop⟩ | hsame
  · rw [hstop]
    exact .inl ⟨_, rfl⟩
  · rw [hsame]
    exact .inr rfl

/-- Repeating a body with more rounds, where the body may have more of them too. The induction is on
the rounds of the first loop, which the second one has left as well. -/
theorem Within.repeatWhile {test : Run Bool} {x y : Run Unit} (h : Within x y) {fuel fuel' : Nat}
    (hle : fuel ≤ fuel') (count : Nat) :
    Within (repeatWhile test x fuel count) (repeatWhile test y fuel' count) := by
  induction fuel generalizing fuel' count with
  | zero => exact fun m => .inl ⟨m, rfl⟩
  | succ fuel ih =>
    obtain ⟨more, rfl⟩ : ∃ more, fuel' = more + 1 := ⟨fuel' - 1, by omega⟩
    unfold Run.repeatWhile
    refine .bind_left test fun goesOn => ?_
    cases goesOn with
    | true => exact h.bind fun _ => ih (Nat.le_of_succ_le_succ hle) (count + 1)
    | false => exact .refl _

/-! ## Statements -/

variable {fuel fuel' : Nat}

mutual

/-- **A statement that ends within its rounds** does the same with more of them. -/
theorem within_execute (hle : fuel ≤ fuel') :
    ∀ s : Stmt, Within (execute fuel s) (execute fuel' s)
  | .expression _ => .refl _
  | .print _ => .refl _
  | .declaration _ none => .refl _
  | .declaration _ (some _) => .refl _
  | .block body => (within_executeAll hle body).inScope.bind_right _
  | .branch condition thenBranch none => by
    refine .bind_left (branchTaken condition) fun taken => ?_
    cases taken with
    | true => exact (within_execute hle thenBranch).bind_right _
    | false => exact .refl _
  | .branch condition thenBranch (some elseBranch) => by
    refine .bind_left (branchTaken condition) fun taken => ?_
    cases taken with
    | true => exact (within_execute hle thenBranch).bind_right _
    | false => exact (within_execute hle elseBranch).bind_right _
  | .loop condition body => by
    have hbody : Within (discard (execute fuel body)) (discard (execute fuel' body)) :=
      (within_execute hle body).map _
    exact (hbody.repeatWhile hle 0).bind_right _
  | .misplaced _ => .refl _

/-- Statements that end within their rounds do the same with more of them. -/
theorem within_executeAll (hle : fuel ≤ fuel') :
    ∀ ss : List Stmt, Within (executeAll fuel ss) (executeAll fuel' ss)
  | [] => .refl _
  | s :: rest => (within_execute hle s).bind fun _ => within_executeAll hle rest

end

/-- **A program that ends within its rounds** does the same with more of them. -/
theorem within_program (hle : fuel ≤ fuel') (statements : List Stmt) :
    Within (program fuel statements) (program fuel' statements) := by
  unfold program
  -- the statements in front may have yielded anything
  generalize (none : Option Value) = v
  induction statements generalizing v with
  | nil => exact .refl _
  | cons s rest ih =>
    rw [List.foldlM_cons, List.foldlM_cons]
    exact (within_execute hle s).bind fun w => ih w

end Lox.Run
