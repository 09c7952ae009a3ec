import Lox.Proofs.Run.Scopes

/-! # Well-scoped programs know their names

Which names are visible at a place of a program can be told from its text: a declaration adds its
name to the end of the block or program that it is in, and nothing else adds one. A program that
mentions visible names only runs into no unknown name, though the scopes are searched anew at every
mention, whatever branches it takes and however often its loops go round.

* **`Expr.WellScoped`**, **`Stmt.WellScoped`**, **`Stmt.AllWellScoped`** — only names of the set are
  mentioned, or names declared before;
* **`Chain.Binds`** — the scopes bind the names of a set;
* **`Run.Assured`** — where names are bound, an action runs into no unknown one;
* **`Run.assured_evaluate`**, **`Run.assured_execute`**, **`Run.assured_program`** — whatever is
  well scoped is assured. -/

namespace Lox

/-! ## Visible names -/

/-- The names read and assigned to in the expression are in the set. -/
def Expr.WellScoped (visible : Set String) : Expr → Prop
  | .literal _ => True
  | .grouping inner => inner.WellScoped visible
  | .unary _ right => right.WellScoped visible
  | .binary left _ right => left.WellScoped visible ∧ right.WellScoped visible
  | .logical left _ right => left.WellScoped visible ∧ right.WellScoped visible
  | .reference name => name.lexeme ∈ visible
  | .assign name value => name.lexeme ∈ visible ∧ value.WellScoped visible
  | .misplaced _ => True

/-- The names that are visible behind a statement, in the block or program that it is in. -/
def Stmt.visibleBehind (visible : Set String) : Stmt → Set String
  | .declaration name _ => insert name.lexeme visible
  | _ => visible

mutual

/-- **A statement is well scoped**: it mentions names of the set only, and inside its blocks also
those declared before. An initializer does not see the name that it is for. -/
def Stmt.WellScoped (visible : Set String) : Stmt → Prop
  | .expression inner => inner.WellScoped visible
  | .print inner => inner.WellScoped visible
  | .declaration _ none => True
  | .declaration _ (some initializer) => initializer.WellScoped visible
  | .block body => Stmt.AllWellScoped visible body
  | .branch condition thenBranch none =>
    condition.WellScoped visible ∧ thenBranch.WellScoped visible
  | .branch condition thenBranch (some elseBranch) =>
    condition.WellScoped visible ∧ thenBranch.WellScoped visible ∧ elseBranch.WellScoped visible
  | .loop condition body => condition.WellScoped visible ∧ body.WellScoped visible
  | .misplaced _ => True

/-- **Statements are well scoped** one after the other, each seeing what is declared before it. -/
def Stmt.AllWellScoped (visible : Set String) : List Stmt → Prop
  | [] => True
  | s :: rest => s.WellScoped visible ∧ Stmt.AllWellScoped (s.visibleBehind visible) rest

end

/-! ## Bound names -/

namespace Chain

variable {c d : Chain} {names : Set String} {x : String} {v : Option Value}

/-- The scopes bind the names of the set. -/
def Binds (c : Chain) (names : Set String) : Prop := ∀ x ∈ names, (c.get? x).isSome = true

/-- What is written to the scopes takes no name away. -/
theorem Binds.written {defines : Prop} (h : c.Binds names) (hd : c.Written defines d) :
    d.Binds names :=
  fun x hx => hd.isSome_get? (h x hx)

/-- A definition binds its own name as well. -/
theorem Binds.define (h : c.Binds names) (x : String) (v : Option Value) :
    (c.define x v).Binds (insert x names) := by
  intro y hy
  rw [get?_define]
  split
  · rfl
  · next hne => exact h y (hy.resolve_left hne)

/-- An opened scope hides no name. -/
theorem Binds.enter (h : c.Binds names) : c.enter.Binds names := h

end Chain

/-- A run stopped because a name was not bound. -/
def Stop.NamesUnknown : Stop → Prop
  | .error e => e.kind = .undefinedVariable
  | .fault _ | .exhausted => False

namespace Run

variable {α β : Type} {G G' G'' : Set String}

/-! ## Assured actions -/

/-- A run ended with the names bound, or it stopped at no unknown name. -/
def Known (names : Set String) : EStateM.Result Stop Machine α → Prop
  | .ok _ m => m.chain.Binds names
  | .error stop _ => ¬stop.NamesUnknown

/-- **Where the names of `G` are bound**, the action runs into no unknown name, and if it ends, the
names of `G'` are bound. -/
def Assured (G G' : Set String) (action : Run α) : Prop :=
  ∀ m : Machine, m.chain.Binds G → Known G' (action m)

/-- An answer at hand. -/
theorem assured_pure (a : α) : Assured G G (pure a) := fun _ hm => hm

/-- Stopping at anything but an unknown name. -/
theorem assured_throw {stop : Stop} (h : ¬stop.NamesUnknown) :
    Assured G G' (throw stop : Run α) := fun _ _ => h

/-- One action after the other. -/
theorem assured_bind {x : Run α} {k : α → Run β} (hx : Assured G G' x)
    (hk : ∀ a, Assured G' G'' (k a)) : Assured G G'' (x >>= k) := by
  intro m hm
  have hxm := hx m hm
  show Known G'' (EStateM.bind x k m)
  unfold EStateM.bind
  cases hres : x m with
  | ok a mid =>
    rw [hres] at hxm
    exact hk a mid hxm
  | error stop mid =>
    rw [hres] at hxm
    exact hxm

/-- Work on an answer. -/
theorem assured_map {x : Run α} (k : α → β) (hx : Assured G G' x) : Assured G G' (k <$> x) := by
  rw [map_eq_pure_bind]
  exact assured_bind hx fun a => assured_pure (k a)

/-- Looking at the machine. -/
theorem assured_get {k : Machine → Run α} (hk : ∀ m, Assured G G' (k m)) :
    Assured G G' (get >>= k) := fun m hm => hk m m hm

/-- Adding a trace entry. -/
theorem assured_note (level : Int) (text : Unit → String) : Assured G G (note level text) :=
  fun _ hm => hm

/-- Printing a line. -/
theorem assured_print (line : String) : Assured G G (print line) := fun _ hm => hm

/-- Showing a value. -/
theorem assured_shown (v : Option Value) : Assured G G (shown v) := by
  cases v with
  | none => exact assured_throw id
  | some v => exact assured_pure _

/-- Adding a trace entry that shows a value. -/
theorem assured_noteValue (level : Int) (v : Option Value) (text : String → String) :
    Assured G G (noteValue level v text) := by
  cases v with
  | none => exact assured_throw id
  | some v => exact assured_note _ _

/-- Looking up a name of the set. -/
theorem assured_lookup {name : Token} (h : name.lexeme ∈ G) : Assured G G (lookup name) := by
  intro m hm
  obtain ⟨v, hv⟩ := Option.isSome_iff_exists.1 (hm _ h)
  unfold lookup
  rw [hv]
  exact hm

/-- Declaring a name binds it. -/
theorem assured_define (name : Token) (v : Option Value) :
    Assured G (insert name.lexeme G) (define name v) := fun _ hm => hm.define name.lexeme v

/-- Assigning to a name of the set. -/
theorem assured_assign {name : Token} (h : name.lexeme ∈ G) (v : Option Value) :
    Assured G G (assign name v) := by
  intro m hm
  unfold assign
  cases hassign : m.chain.assign? name.lexeme v with
  | none =>
    -- only an unbound name cannot be assigned to
    have hbound := hm _ h
    rw [Chain.assign?_eq_none_iff.1 hassign] at hbound
    cases hbound
  | some c =>
    have hwritten : m.chain.Written False c := .assign .refl hassign
    exact hm.written hwritten

/-- Counting the scopes. -/
theorem assured_depth : Assured G G depth := fun _ hm => hm

/-- A scope of its own: behind it the names are bound that were bound in front of it. -/
theorem assured_inScope {body : Run α} (hbody : Assured G G' body)
    (hconfined : Confined True True body) : Assured G G (inScope body) := by
  intro m hm
  have hres := hbody (entered m) hm.enter
  have hwritten := (hconfined (entered m)).chain
  rw [inScope_eq]
  cases hentered : body (entered m) with
  | ok a m' =>
    rw [hentered] at hwritten
    exact hm.written hwritten.leave
  | error stop m' =>
    rw [hentered] at hres
    exact hres

/-- Repeating a body: the induction is on the rounds granted. -/
theorem assured_repeatWhile {test : Run Bool} {body : Run Unit} (htest : Assured G G test)
    (hbody : Assured G G body) (fuel count : Nat) :
    Assured G G (repeatWhile test body fuel count) := by
  induction fuel generalizing count with
  | zero => exact assured_throw id
  | succ fuel ih =>
    unfold repeatWhile
    refine assured_bind htest fun goesOn => ?_
    cases goesOn with
    | true => exact assured_bind hbody fun _ => ih (count + 1)
    | false => exact assured_pure count

/-! ## Expressions -/

/-- A sign in front of an operand. -/
theorem assured_applyUnary (operator : Token) (v : Option Value) :
    Assured G G (applyUnary operator v) := by
  unfold applyUnary
  split
  · exact assured_pure _
  · split
    · exact assured_pure _
    · exact assured_throw nofun
  · exact assured_throw id

/-- An operator between two operands. -/
theorem assured_applyBinary (operator : Token) (v w : Option Value) :
    Assured G G (applyBinary operator v w) := by
  unfold applyBinary
  split
  · exact assured_pure _
  · exact assured_pure _
  · split
    · exact assured_pure _
    · exact assured_pure _
    · exact assured_throw nofun
  · split
    · split
      · exact assured_pure _
      · exact assured_throw id
    · exact assured_throw nofun

/-- The entry of an evaluated expression. -/
theorem assured_noted (kind : NodeKind) (v : Option Value) : Assured G G (noted kind v) := by
  unfold noted
  refine assured_get fun m => ?_
  split
  · exact assured_bind (assured_noteValue 4 v _) fun _ => assured_pure v
  · exact assured_pure v

/-- **A well-scoped expression** runs into no unknown name. -/
theorem assured_evaluate {e : Expr} (h : e.WellScoped G) : Assured G G (evaluate e) := by
  induction e with
  | literal value => exact assured_noted _ _
  | grouping inner ih => exact assured_bind (ih h) fun v => assured_noted _ v
  | unary operator right ih =>
    refine assured_bind (ih h) fun v => ?_
    exact assured_bind (assured_applyUnary operator v) fun w => assured_noted _ w
  | binary left operator right ihLeft ihRight =>
    refine assured_bind (ihLeft h.1) fun v => assured_bind (ihRight h.2) fun w => ?_
    exact assured_bind (assured_applyBinary operator v w) fun u => assured_noted _ u
  | logical left operator right ihLeft ihRight =>
    refine assured_bind (ihLeft h.1) fun v => ?_
    show Assured G G (if decides operator v = true then pure v >>= noted .logical
      else evaluate right >>= noted .logical)
    split
    · exact assured_bind (assured_pure v) fun w => assured_noted _ w
    · exact assured_bind (ihRight h.2) fun w => assured_noted _ w
  | reference name => exact assured_bind (assured_lookup h) fun v => assured_noted _ v
  | assign name inner ih =>
    refine assured_bind (ih h.2) fun v => assured_bind (assured_assign h.1 v) fun _ => ?_
    exact assured_bind (assured_noteValue 2 v _) fun _ => assured_noted _ v
  | misplaced node => exact assured_throw id

/-! ## Statements -/

/-- A condition. -/
theorem assured_holds {condition : Expr} (h : condition.WellScoped G) :
    Assured G G (holds condition) :=
  assured_map _ (assured_evaluate h)

/-- The condition of a branch. -/
theorem assured_branchTaken {condition : Expr} (h : condition.WellScoped G) :
    Assured G G (branchTaken condition) :=
  assured_bind (assured_holds h) fun _ => assured_bind (assured_note 3 _) fun _ => assured_pure _

/-- A declaration. -/
theorem assured_declare (name : Token) (v : Option Value) :
    Assured G (insert name.lexeme G) (declare name v) :=
  assured_bind (assured_define name v) fun _ =>
    assured_bind assured_depth fun _ => assured_noteValue 2 v _

/-- Fewer names may be asked for behind an action. -/
theorem Assured.mono {action : Run α} (h : Assured G G'' action) (hsub : G' ⊆ G'') :
    Assured G G' action := by
  intro m hm
  have hres := h m hm
  cases haction : action m with
  | ok a m' =>
    rw [haction] at hres
    exact fun x hx => hres x (hsub hx)
  | error stop m' =>
    rw [haction] at hres
    exact hres

/-- Whatever is visible in front of a statement is visible behind it. -/
theorem subset_visibleBehind (G : Set String) (s : Stmt) : G ⊆ s.visibleBehind G := by
  cases s with
  | declaration name initializer => exact Set.subset_insert _ _
  | expression | print | block | branch | loop | misplaced => exact subset_rfl

mutual

/-- **A well-scoped statement** runs into no unknown name. -/
theorem assured_execute (fuel : Nat) : ∀ (s : Stmt) {G : Set String}, s.WellScoped G →
    Assured G (s.visibleBehind G) (execute fuel s)
  | .expression inner, _, h => assured_evaluate h
  | .print inner, _, h =>
    assured_bind (assured_evaluate h) fun v => assured_bind (assured_shown v) fun text =>
      assured_bind (assured_note 4 _) fun _ =>
        assured_bind (assured_print text) fun _ => assured_pure _
  | .declaration name none, _, _ => assured_bind (assured_declare name _) fun _ => assured_pure _
  | .declaration name (some initializer), _, h =>
    assured_bind (assured_evaluate h) fun v =>
      assured_bind (assured_declare name v) fun _ => assured_pure _
  | .block body, _, h => by
    have hbody := assured_inScope (assured_executeAll fuel body h) (confined_executeAll fuel body)
    exact assured_bind hbody fun _ => assured_pure _
  | .branch condition thenBranch none, _, h => by
    refine assured_bind (assured_branchTaken h.1) fun taken => ?_
    -- what a branch declares is not counted on behind it
    have hthen := (assured_execute fuel thenBranch h.2).mono (subset_visibleBehind _ thenBranch)
    cases taken with
    | true => exact assured_bind hthen fun _ => assured_pure _
    | false => exact assured_pure _
  | .branch condition thenBranch (some elseBranch), _, h => by
    refine assured_bind (assured_branchTaken h.1) fun taken => ?_
    have hthen := (assured_execute fuel thenBranch h.2.1).mono (subset_visibleBehind _ thenBranch)
    have helse := (assured_execute fuel elseBranch h.2.2).mono (subset_visibleBehind _ elseBranch)
    cases taken with
    | true => exact assured_bind hthen fun _ => assured_pure _
    | false => exact assured_bind helse fun _ => assured_pure _
  | .loop condition body, _, h => by
    have hbody := (assured_execute fuel body h.2).mono (subset_visibleBehind _ body)
    have hrounds := assured_repeatWhile (assured_holds h.1) (assured_map (fun _ => ()) hbody) fuel 0
    exact assured_bind hrounds fun _ => assured_bind (assured_note 3 _) fun _ => assured_pure _
  | .misplaced node, _, _ => assured_throw id

/-- Well-scoped statements run into no unknown name one after the other. -/
theorem assured_executeAll (fuel : Nat) : ∀ (ss : List Stmt) {G : Set String},
    Stmt.AllWellScoped G ss → Assured G (ss.foldl Stmt.visibleBehind G) (executeAll fuel ss)
  | [], _, _ => assured_pure _
  | s :: rest, _, h =>
    assured_bind (assured_execute fuel s h.1) fun _ => assured_executeAll fuel rest h.2

end

/-- **A well-scoped program** runs into no unknown name. -/
theorem assured_program (fuel : Nat) {statements : List Stmt}
    (h : Stmt.AllWellScoped G statements) :
    Assured G (statements.foldl Stmt.visibleBehind G) (program fuel statements) := by
  unfold program
  -- the statements in front may have yielded anything
  generalize (none : Option Value) = v
  induction statements generalizing G v with
  | nil => exact assured_pure v
  | cons s rest ih =>
    rw [List.foldlM_cons]
    exact assured_bind (assured_execute fuel s h.1) fun w => ih h.2 w

end Run

end Lox
