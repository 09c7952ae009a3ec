import Lox.Proofs.Run.Operators
import Lox.Proofs.Run.Programs

/-! # Trees drawn from tokens run without faults

As long as every name is bound to a value, an expression drawn from tokens yields a value and a
statement drawn from tokens leaves every name bound to a value. A run may stop at a runtime error or
because its rounds are used up; it never stops at a fault.

* **`Chain.Valued`** — every binding of every scope is a value;
* **`Run.Safe`** — an action keeps it so and stops at no fault;
* **`Run.safe_evaluate`**, **`Run.safe_execute`**, **`Run.safe_program`** — what is drawn from
  tokens is safe. -/

namespace Lox

/-! ## Scopes of values -/

/-- Every name of the scope is bound to a value. -/
def Bindings.Valued (b : Bindings) : Prop := ∀ x v, b.get? x = some v → v.isSome = true

/-- Every name of every scope is bound to a value. -/
def Chain.Valued (c : Chain) : Prop := ∀ b ∈ c.scopes, b.Valued

/-- A scope that binds nothing binds nothing but values. -/
theorem Bindings.valued_empty : Bindings.empty.Valued := by
  intro x v h
  rw [get?_empty] at h
  cases h

/-- Binding a name to a value keeps the others. -/
theorem Bindings.Valued.set {b : Bindings} (h : b.Valued) {v : Option Value}
    (hv : v.isSome = true) (x : String) : (b.set x v).Valued := by
  intro y w hw
  rw [get?_set] at hw
  split at hw
  · cases hw
    exact hv
  · exact h y w hw

namespace Chain

variable {c c' : Chain} {b : Bindings} {x : String} {v : Option Value}

@[simp] theorem valued_global : (global b).Valued ↔ b.Valued := by simp [Valued, scopes]

@[simp] theorem valued_nested : (nested b c).Valued ↔ b.Valued ∧ c.Valued := by
  simp [Valued, scopes]

/-- What a name is bound to is a value. -/
theorem Valued.isSome_of_get? (h : c.Valued) (hx : c.get? x = some v) : v.isSome = true := by
  rw [get?_eq_findSome?] at hx
  obtain ⟨b, hb, hv⟩ := List.exists_of_findSome?_eq_some hx
  exact h b hb x v hv

/-- Declaring a name with a value. -/
theorem Valued.define (h : c.Valued) (hv : v.isSome = true) : (c.define x v).Valued := by
  cases c with
  | global b => exact valued_global.2 ((valued_global.1 h).set hv x)
  | nested b c =>
    obtain ⟨hb, hc⟩ := valued_nested.1 h
    exact valued_nested.2 ⟨hb.set hv x, hc⟩

/-- Assigning a value to a name. -/
theorem Valued.assign? (h : c.Valued) (hv : v.isSome = true) (hc : c.assign? x v = some c') :
    c'.Valued := by
  induction c generalizing c' with
  | global b =>
    rw [Chain.assign?] at hc
    split at hc
    · cases hc
      exact valued_global.2 ((valued_global.1 h).set hv x)
    · cases hc
  | nested b c ih =>
    obtain ⟨hb, hrest⟩ := valued_nested.1 h
    rw [Chain.assign?] at hc
    split at hc
    · cases hc
      exact valued_nested.2 ⟨hb.set hv x, hrest⟩
    · obtain ⟨d, hd, rfl⟩ := Option.map_eq_some_iff.1 hc
      exact valued_nested.2 ⟨hb, ih hrest hd⟩

/-- Opening a scope. -/
theorem Valued.enter (h : c.Valued) : c.enter.Valued :=
  valued_nested.2 ⟨Bindings.valued_empty, h⟩

/-- Closing a scope. -/
theorem Valued.leave (h : c.Valued) : c.leave.Valued := by
  cases c with
  | global b => exact h
  | nested b c => exact (valued_nested.1 h).2

end Chain

/-! ## Safe actions -/

namespace Run

variable {α β : Type}

/-- A run ended with every name bound to a value: with an answer that `post` allows, or at a stop
that is no fault. -/
def Sound (post : α → Prop) : EStateM.Result Stop Machine α → Prop
  | .ok a m => post a ∧ m.chain.Valued
  | .error stop m => (∀ f, stop ≠ .fault f) ∧ m.chain.Valued

/-- Where every name is bound to a value, the action leaves it so, answers what `post` allows, and
stops at no fault. -/
def Safe (action : Run α) (post : α → Prop) : Prop :=
  ∀ m : Machine, m.chain.Valued → Sound post (action m)

/-- An action that answers more says less. -/
theorem Safe.mono {action : Run α} {post post' : α → Prop} (h : Safe action post)
    (himp : ∀ a, post a → post' a) : Safe action post' := by
  intro m hm
  have hres := h m hm
  cases haction : action m with
  | ok a m' =>
    rw [haction] at hres
    exact ⟨himp a hres.1, hres.2⟩
  | error stop m' =>
    rw [haction] at hres
    exact hres

/-- An answer at hand. -/
theorem safe_pure {a : α} {post : α → Prop} (h : post a) : Safe (pure a) post :=
  fun _ hm => ⟨h, hm⟩

/-- One action after the other. -/
theorem safe_bind {x : Run α} {f : α → Run β} {mid : α → Prop} {post : β → Prop}
    (hx : Safe x mid) (hf : ∀ a, mid a → Safe (f a) post) : Safe (x >>= f) post := by
  intro m hm
  have hres := hx m hm
  show Sound post (EStateM.bind x f m)
  unfold EStateM.bind
  cases hxm : x m with
  | ok a m' =>
    rw [hxm] at hres
    exact hf a hres.1 m' hres.2
  | error stop m' =>
    rw [hxm] at hres
    exact hres

/-- Work on an answer. -/
theorem safe_map {x : Run α} {f : α → β} {post : β → Prop} (hx : Safe x fun a => post (f a)) :
    Safe (f <$> x) post := by
  rw [map_eq_pure_bind]
  exact safe_bind hx fun a ha => safe_pure ha

/-- Looking at the machine. -/
theorem safe_get {f : Machine → Run α} {post : α → Prop} (hf : ∀ m, Safe (f m) post) :
    Safe (get >>= f) post := fun m hm => hf m m hm

/-- Stopping at a runtime error. -/
theorem safe_abort (token : Token) (kind : RuntimeErrorKind) (post : α → Prop) :
    Safe (abort token kind) post := fun _ hm => ⟨nofun, hm⟩

/-- Adding a trace entry. -/
theorem safe_note (level : Int) (text : Unit → String) :
    Safe (note level text) fun _ => True := fun _ hm => ⟨trivial, hm⟩

/-- Printing a line. -/
theorem safe_print (line : String) : Safe (print line) fun _ => True :=
  fun _ hm => ⟨trivial, hm⟩

/-- Showing a value. -/
theorem safe_shown {v : Option Value} (hv : v.isSome = true) : Safe (shown v) fun _ => True := by
  cases v with
  | none => cases hv
  | some v => exact safe_pure trivial

/-- Adding a trace entry that shows a value. -/
theorem safe_noteValue (level : Int) {v : Option Value} (text : String → String)
    (hv : v.isSome = true) : Safe (noteValue level v text) fun _ => True := by
  cases v with
  | none => cases hv
  | some v => exact safe_note _ _

/-- Looking a name up. -/
theorem safe_lookup (name : Token) : Safe (lookup name) fun v => v.isSome = true := by
  intro m hm
  unfold lookup
  cases hget : m.chain.get? name.lexeme with
  | none => exact safe_abort _ _ _ m hm
  | some v => exact ⟨hm.isSome_of_get? hget, hm⟩

/-- Declaring a name with a value. -/
theorem safe_define (name : Token) {v : Option Value} (hv : v.isSome = true) :
    Safe (define name v) fun _ => True := fun _ hm => ⟨trivial, hm.define hv⟩

/-- Assigning a value to a name. -/
theorem safe_assign (name : Token) {v : Option Value} (hv : v.isSome = true) :
    Safe (assign name v) fun _ => True := by
  intro m hm
  unfold assign
  cases hassign : m.chain.assign? name.lexeme v with
  | none => exact safe_abort _ _ _ m hm
  | some c => exact ⟨trivial, hm.assign? hv hassign⟩

/-- A scope of its own. -/
theorem safe_inScope {body : Run α} {post : α → Prop} (hbody : Safe body post) :
    Safe (inScope body) post := by
  intro m hm
  -- the scope is opened without bindings and closed however the body ends
  have hres := hbody (entered m) hm.enter
  rw [inScope_eq]
  cases hentered : body (entered m) with
  | ok a m' =>
    rw [hentered] at hres
    exact ⟨hres.1, hres.2.leave⟩
  | error stop m' =>
    rw [hentered] at hres
    exact ⟨hres.1, hres.2.leave⟩

/-- Repeating a body: the induction is on the rounds granted. -/
theorem safe_repeatWhile {test : Run Bool} {body : Run Unit} (htest : Safe test fun _ => True)
    (hbody : Safe body fun _ => True) (fuel count : Nat) :
    Safe (repeatWhile test body fuel count) fun _ => True := by
  induction fuel generalizing count with
  | zero => exact fun _ hm => ⟨nofun, hm⟩
  | succ fuel ih =>
    unfold repeatWhile
    refine safe_bind htest fun goesOn _ => ?_
    cases goesOn with
    | true => exact safe_bind hbody fun _ _ => ih (count + 1)
    | false => exact safe_pure trivial

/-! ## Operators -/

/-- A sign in front of an operand. -/
theorem safe_applyUnary {operator : Token} (h : operator.kind ∈ Surface.signKinds)
    (v : Option Value) : Safe (applyUnary operator v) fun w => w.isSome = true := by
  rcases applyUnary_eq_or h v with ⟨u, hu⟩ | ⟨kind, -, habort⟩
  · rw [hu]
    exact safe_pure rfl
  · rw [habort]
    exact safe_abort _ _ _

/-- An operator between two operands. -/
theorem safe_applyBinary {operator : Token} (h : operator.kind ∈ binaryKinds)
    (v w : Option Value) : Safe (applyBinary operator v w) fun u => u.isSome = true := by
  rcases applyBinary_eq_or h v w with ⟨u, hu⟩ | ⟨kind, -, habort⟩
  · rw [hu]
    exact safe_pure rfl
  · rw [habort]
    exact safe_abort _ _ _

/-! ## Expressions -/

/-- The entry of an evaluated expression. -/
theorem safe_noted (kind : NodeKind) {v : Option Value} (hv : v.isSome = true) :
    Safe (noted kind v) fun w => w.isSome = true := by
  unfold noted
  refine safe_get fun m => ?_
  split
  · exact safe_bind (safe_noteValue 4 _ hv) fun _ _ => safe_pure hv
  · exact safe_pure hv

/-- **An expression drawn from tokens yields a value.** -/
theorem safe_evaluate {ts : List Token} {e : Expr} (h : e.Drawn ts) :
    Safe (evaluate e) fun v => v.isSome = true := by
  induction e with
  | literal value => exact safe_noted _ h
  | grouping inner ih => exact safe_bind (ih h) fun _ hv => safe_noted _ hv
  | unary operator right ih =>
    obtain ⟨-, hkind, hright⟩ := h
    refine safe_bind (ih hright) fun v _ => ?_
    exact safe_bind (safe_applyUnary hkind v) fun _ hw => safe_noted _ hw
  | binary left operator right ihLeft ihRight =>
    obtain ⟨hleft, ⟨-, hkind⟩, hright⟩ := h
    refine safe_bind (ihLeft hleft) fun v _ => safe_bind (ihRight hright) fun w _ => ?_
    exact safe_bind (safe_applyBinary hkind v w) fun _ hu => safe_noted _ hu
  | logical left operator right ihLeft ihRight =>
    obtain ⟨hleft, -, hright⟩ := h
    refine safe_bind (ihLeft hleft) fun v hv => ?_
    -- the left operand is the answer if it decides, else the right one is
    show Safe (if decides operator v = true then pure v >>= noted .logical
      else evaluate right >>= noted .logical) _
    split
    · exact safe_bind (safe_pure hv) fun _ hw => safe_noted _ hw
    · exact safe_bind (ihRight hright) fun _ hw => safe_noted _ hw
  | reference name => exact safe_bind (safe_lookup name) fun _ hv => safe_noted _ hv
  | assign name inner ih =>
    refine safe_bind (ih h.2) fun v hv => safe_bind (safe_assign name hv) fun _ _ => ?_
    exact safe_bind (safe_noteValue 2 _ hv) fun _ _ => safe_noted _ hv
  | misplaced node => exact h.elim

/-! ## Statements -/

/-- A condition. -/
theorem safe_holds {ts : List Token} {condition : Expr} (h : condition.Drawn ts) :
    Safe (holds condition) fun _ => True :=
  safe_map ((safe_evaluate h).mono fun _ _ => trivial)

/-- The condition of a branch. -/
theorem safe_branchTaken {ts : List Token} {condition : Expr} (h : condition.Drawn ts) :
    Safe (branchTaken condition) fun _ => True :=
  safe_bind (safe_holds h) fun _ _ => safe_bind (safe_note 3 _) fun _ _ => safe_pure trivial

/-- A declaration. -/
theorem safe_declare (name : Token) {v : Option Value} (hv : v.isSome = true) :
    Safe (declare name v) fun _ => True := by
  refine safe_bind (safe_define name hv) fun _ _ => ?_
  have hdepth : Safe depth fun _ => True := safe_get fun _ => safe_pure trivial
  exact safe_bind hdepth fun _ _ => safe_noteValue 2 _ hv

/-- Whatever an action answers may be dropped. -/
theorem safe_bind_const {x : Run α} {y : Run β} {mid : α → Prop} {post : β → Prop}
    (hx : Safe x mid) (hy : Safe y post) : Safe (x >>= fun _ => y) post :=
  safe_bind hx fun _ _ => hy

mutual

/-- **A statement drawn from tokens runs without faults.** -/
theorem safe_execute {ts : List Token} (fuel : Nat) :
    ∀ s : Stmt, s.Drawn ts → Safe (execute fuel s) fun _ => True
  | .expression inner, h => (safe_evaluate h).mono fun _ _ => trivial
  | .print inner, h => by
    refine safe_bind (safe_evaluate h) fun v hv => safe_bind (safe_shown hv) fun _ _ => ?_
    exact safe_bind_const (safe_note 4 _) (safe_bind_const (safe_print _) (safe_pure trivial))
  | .declaration name none, _ => safe_bind_const (safe_declare name rfl) (safe_pure trivial)
  | .declaration name (some initializer), h =>
    safe_bind (safe_evaluate h.2) fun _ hv =>
      safe_bind_const (safe_declare name hv) (safe_pure trivial)
  | .block body, h =>
    safe_bind_const (safe_inScope (safe_executeAll fuel body h)) (safe_pure trivial)
  | .branch condition thenBranch none, h => by
    refine safe_bind (safe_branchTaken h.1) fun taken _ => ?_
    cases taken with
    | true => exact safe_bind_const (safe_execute fuel thenBranch h.2) (safe_pure trivial)
    | false => exact safe_pure trivial
  | .branch condition thenBranch (some elseBranch), h => by
    refine safe_bind (safe_branchTaken h.1) fun taken _ => ?_
    cases taken with
    | true => exact safe_bind_const (safe_execute fuel thenBranch h.2.1) (safe_pure trivial)
    | false => exact safe_bind_const (safe_execute fuel elseBranch h.2.2) (safe_pure trivial)
  | .loop condition body, h => by
    -- the body may do anything in its rounds but answer something that is looked at
    have hbody : Safe (discard (execute fuel body)) fun _ => True :=
      safe_map ((safe_execute fuel body h.2).mono fun _ _ => trivial)
    refine safe_bind (safe_repeatWhile (safe_holds h.1) hbody fuel 0) fun _ _ => ?_
    exact safe_bind_const (safe_note 3 _) (safe_pure trivial)
  | .misplaced node, h => h.elim

/-- Statements drawn from tokens run without faults one after the other. -/
theorem safe_executeAll {ts : List Token} (fuel : Nat) :
    ∀ ss : List Stmt, Stmt.AllDrawn ts ss → Safe (executeAll fuel ss) fun _ => True
  | [], _ => safe_pure trivial
  | s :: rest, h =>
    safe_bind_const (safe_execute fuel s h.1) (safe_executeAll fuel rest h.2)

end

/-- **A program drawn from tokens runs without faults.** -/
theorem safe_program {ts : List Token} (fuel : Nat) {ss : List Stmt}
    (h : Stmt.AllDrawn ts ss) : Safe (program fuel ss) fun _ => True := by
  -- the value that the statements in front yielded is not looked at
  have hfold : ∀ (ss : List Stmt), Stmt.AllDrawn ts ss → ∀ v : Option Value,
      Safe (ss.foldlM (fun _ s => execute fuel s) v) fun _ => True := by
    intro ss
    induction ss with
    | nil => exact fun _ _ => safe_pure trivial
    | cons s rest ih =>
      intro hss v
      rw [List.foldlM_cons]
      exact safe_bind (safe_execute fuel s hss.1) fun w _ => ih hss.2 w
  exact hfold ss h none

end Run

end Lox
