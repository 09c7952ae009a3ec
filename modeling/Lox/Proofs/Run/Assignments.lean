import Lox.Proofs.Run.Scopes
import Lox.Proofs.Scope.Changes

/-! # Free assignments

A statement that is executed in some scopes changes a variable of them only by an assignment that no
declaration of the statement hides. Which assignments are free in this sense can be told from the
text: a declaration hides those behind it in its block, however often a loop comes back to the block
and wherever an error breaks it off.

* **`Expr.assigned`**, **`Stmt.freelyAssigned`** — the names assigned to, and those that are so
  freely;
* **`Run.Changes`** — an action changes no other names in the scopes in force;
* **`Run.Enclosed`** — an action in a scope of its own changes no other names around that scope;
* **`Run.changes_evaluate`**, **`Run.changes_execute`** — expressions and statements change what
  they assign to freely;
* **`Run.valueIn_execute`** — hence which variables a readable statement leaves alone. -/

namespace Lox

/-! ## The names assigned to -/

/-- The names that an expression assigns to. -/
def Expr.assigned : Expr → Set String
  | .literal _ => ∅
  | .grouping inner => inner.assigned
  | .unary _ right => right.assigned
  | .binary left _ right => left.assigned ∪ right.assigned
  | .logical left _ right => left.assigned ∪ right.assigned
  | .reference _ => ∅
  | .assign name value => insert name.lexeme value.assigned
  | .misplaced _ => ∅

/-- The names that a statement hides from the ones behind it in its block. -/
def Stmt.declared : Stmt → Set String
  | .declaration name _ => {name.lexeme}
  | _ => ∅

mutual

/-- **The names that a statement assigns to freely**: in front of every declaration of the name in
the same block or in a block around, as far as these are inside the statement. An initializer is in
front of its declaration. -/
def Stmt.freelyAssigned : Stmt → Set String
  | .expression inner => inner.assigned
  | .print inner => inner.assigned
  | .declaration _ none => ∅
  | .declaration _ (some initializer) => initializer.assigned
  | .block body => Stmt.allFreelyAssigned body
  | .branch condition thenBranch none => condition.assigned ∪ thenBranch.freelyAssigned
  | .branch condition thenBranch (some elseBranch) =>
    condition.assigned ∪ (thenBranch.freelyAssigned ∪ elseBranch.freelyAssigned)
  | .loop condition body => condition.assigned ∪ body.freelyAssigned
  | .misplaced _ => ∅

/-- The names that the statements of a block assign to freely, each hiding its own from the
others behind it. -/
def Stmt.allFreelyAssigned : List Stmt → Set String
  | [] => ∅
  | s :: rest => s.freelyAssigned ∪ (Stmt.allFreelyAssigned rest \ s.declared)

end

namespace Run

variable {α β : Type} {defines defines' : Prop} {F F' G G' G'' : Set String}

/-! ## Actions that change certain names -/

/-- **An action changes names of `F` at most**: however it ends, other names have the values that
they had in the scopes in force, but for definitions in the innermost scope if `defines` allows
them. -/
def Changes (defines : Prop) (F : Set String) (action : Run α) : Prop :=
  ∀ m : Machine, m.chain.Changed defines F (left (action m)).chain

/-- More names may be changed, and definitions may be allowed. -/
theorem Changes.mono {action : Run α} (h : Changes defines F action) (himp : defines → defines')
    (hsub : F ⊆ F') : Changes defines' F' action :=
  fun m => (h m).mono himp hsub

/-- An answer at hand. -/
theorem changes_pure (a : α) : Changes defines F (pure a) := fun m => .refl m.chain

/-- Stopping. -/
theorem changes_throw (stop : Stop) : Changes defines F (throw stop : Run α) :=
  fun m => .refl m.chain

/-- One action after the other. -/
theorem changes_bind {x : Run α} {k : α → Run β} (hx : Changes defines F x)
    (hk : ∀ a, Changes defines F (k a)) : Changes defines F (x >>= k) := by
  intro m
  have hxm := hx m
  show m.chain.Changed defines F (left (EStateM.bind x k m)).chain
  unfold EStateM.bind
  cases hres : x m with
  | ok a mid =>
    rw [hres] at hxm
    exact hxm.trans (hk a mid)
  | error stop mid =>
    rw [hres] at hxm
    exact hxm

/-- Work on an answer. -/
theorem changes_map (f : α → β) {x : Run α} (hx : Changes defines F x) :
    Changes defines F (f <$> x) := by
  rw [map_eq_pure_bind]
  exact changes_bind hx fun a => changes_pure (f a)

/-- The scopes stay as they are as long as nothing is looked up or assigned to. -/
theorem link_chain (start : Chain) : Link ∅ True (Alone fun m => m.chain = start) where
  get?_eq _ _ hx := hx.elim
  shown _ _ hx _ _ := hx.elim
  assign _ _ hx _ _ _ _ _ _ := hx.elim
  trace h _ _ ht ht' := ⟨bond_alike.trace h.1 ht ht', h.2⟩
  level h _ := h.1.level

/-- An action that is in step with itself, whatever the scopes are, leaves them alone. -/
theorem changes_of_inStep {P : α → Prop} {x : Run α}
    (h : ∀ start : Chain, InStep id (Alone fun m => m.chain = start) P x x) :
    Changes defines F x := by
  intro m
  have hchain : (left (x m)).chain = m.chain := (h m.chain).alone rfl
  rw [hchain]
  exact .refl m.chain

/-- Adding a trace entry. -/
theorem changes_note (level : Int) (text : Unit → String) : Changes defines F (note level text) :=
  fun m => .refl m.chain

/-- Adding a trace entry that shows a value. -/
theorem changes_noteValue (level : Int) (v : Option Value) (text : String → String) :
    Changes defines F (noteValue level v text) :=
  changes_of_inStep fun start => inStep_noteValue (link_chain start) level v text text

/-- The entry of an evaluated expression. -/
theorem changes_noted (kind : NodeKind) (v : Option Value) : Changes defines F (noted kind v) :=
  changes_of_inStep fun start => inStep_noted (link_chain start) kind (.inl trivial)

/-- Showing a value. -/
theorem changes_shown (v : Option Value) : Changes defines F (shown v) :=
  changes_of_inStep fun _ => inStep_shown v

/-- Printing a line. -/
theorem changes_print (line : String) : Changes defines F (print line) := fun m => .refl m.chain

/-- A sign in front of an operand. -/
theorem changes_applyUnary (operator : Token) (v : Option Value) :
    Changes defines F (applyUnary operator v) :=
  changes_of_inStep (P := Shown True) fun _ => inStep_applyUnary (f := id) operator v

/-- An operator between two operands. -/
theorem changes_applyBinary (operator : Token) (v w : Option Value) :
    Changes defines F (applyBinary operator v w) :=
  changes_of_inStep (P := Shown True) fun _ => inStep_applyBinary (f := id) operator v w

/-- Looking a name up. -/
theorem changes_lookup (name : Token) : Changes defines F (lookup name) := by
  intro m
  unfold lookup
  cases m.chain.get? name.lexeme with
  | none => exact .refl m.chain
  | some v => exact .refl m.chain

/-- **Assigning** to a name of `F`. -/
theorem changes_assign {name : Token} (hname : name.lexeme ∈ F) (v : Option Value) :
    Changes defines F (assign name v) := by
  intro m
  unfold assign
  cases hassign : m.chain.assign? name.lexeme v with
  | none => exact .refl m.chain
  | some c => exact .assign hname hassign

/-- **Declaring** a name. -/
theorem changes_declare (hdefines : defines) (name : Token) (v : Option Value) :
    Changes defines F (declare name v) := by
  have hdefine : Changes defines F (define name v) := fun m => .define hdefines name.lexeme v
  have hdepth : Changes defines F depth := fun m => .refl m.chain
  exact changes_bind hdefine fun _ => changes_bind hdepth fun _ => changes_noteValue 2 v _

/-! ## Expressions -/

/-- **An expression** changes the names that it assigns to. -/
theorem changes_evaluate {e : Expr} (h : e.assigned ⊆ F) : Changes defines F (evaluate e) := by
  induction e with
  | literal value => exact changes_noted _ value
  | grouping inner ih => exact changes_bind (ih h) fun v => changes_noted _ v
  | unary operator right ih =>
    refine changes_bind (ih h) fun v => ?_
    exact changes_bind (changes_applyUnary operator v) fun w => changes_noted _ w
  | binary left operator right ihLeft ihRight =>
    obtain ⟨hleft, hright⟩ := Set.union_subset_iff.1 h
    refine changes_bind (ihLeft hleft) fun v => changes_bind (ihRight hright) fun w => ?_
    exact changes_bind (changes_applyBinary operator v w) fun u => changes_noted _ u
  | logical left operator right ihLeft ihRight =>
    obtain ⟨hleft, hright⟩ := Set.union_subset_iff.1 h
    refine changes_bind (ihLeft hleft) fun v => ?_
    show Changes defines F (if decides operator v = true then pure v >>= noted .logical
      else evaluate right >>= noted .logical)
    split
    · exact changes_bind (changes_pure v) fun w => changes_noted _ w
    · exact changes_bind (ihRight hright) fun w => changes_noted _ w
  | reference name => exact changes_bind (changes_lookup name) fun v => changes_noted _ v
  | assign name inner ih =>
    obtain ⟨hname, hinner⟩ := Set.insert_subset_iff.1 h
    refine changes_bind (ih hinner) fun v => changes_bind (changes_assign hname v) fun _ => ?_
    exact changes_bind (changes_noteValue 2 v _) fun _ => changes_noted _ v
  | misplaced node => exact changes_throw _

/-- A condition. -/
theorem changes_holds {condition : Expr} (h : condition.assigned ⊆ F) :
    Changes defines F (holds condition) :=
  changes_map _ (changes_evaluate h)

/-- The condition of a branch. -/
theorem changes_branchTaken {condition : Expr} (h : condition.assigned ⊆ F) :
    Changes defines F (branchTaken condition) :=
  changes_bind (changes_holds h) fun _ => changes_bind (changes_note 3 _) fun _ => changes_pure _

/-! ## Inside a scope -/

/-- **Inside a scope that binds the names of `G`**, the action changes names of `F` at most in the
scopes around it, and if it ends, the scope binds the names of `G'`. -/
def Enclosed (G G' F : Set String) (action : Run α) : Prop :=
  ∀ m b c, m.chain = .nested b c → G ⊆ b.names →
    ∃ b' c', (left (action m)).chain = .nested b' c' ∧ c.Changed False F c' ∧
      ∀ a m', action m = .ok a m' → G' ⊆ b'.names

/-- More names may be changed. -/
theorem Enclosed.mono {action : Run α} (h : Enclosed G G' F action) (hsub : F ⊆ F') :
    Enclosed G G' F' action := by
  intro m b c hm hG
  obtain ⟨b', c', hleft, hc, hG'⟩ := h m b c hm hG
  exact ⟨b', c', hleft, hc.mono id hsub, hG'⟩

/-- One action after the other. -/
theorem enclosed_bind {x : Run α} {k : α → Run β} (hx : Enclosed G G' F x)
    (hk : ∀ a, Enclosed G' G'' F (k a)) : Enclosed G G'' F (x >>= k) := by
  intro m b c hm hG
  obtain ⟨b', c', hleft, hc, hG'⟩ := hx m b c hm hG
  show ∃ b'' c'', (left (EStateM.bind x k m)).chain = _ ∧ _ ∧
    ∀ a m', EStateM.bind x k m = _ → _
  unfold EStateM.bind
  cases hres : x m with
  | error stop mid =>
    rw [hres] at hleft
    exact ⟨b', c', hleft, hc, nofun⟩
  | ok a mid =>
    rw [hres] at hleft
    obtain ⟨b'', c'', hleft', hc', hG''⟩ := hk a mid b' c' hleft (hG' a mid hres)
    exact ⟨b'', c'', hleft', hc.trans hc', hG''⟩

/-- **What an action changes inside a scope** is out of reach around it under the names that the
scope binds. -/
theorem Changes.enclosed {action : Run α} (h : Changes True F action) :
    Enclosed G G (F \ G) action := by
  intro m b c hm hG
  have hchanged := h m
  rw [hm] at hchanged
  obtain ⟨b', c', hleft, hsub, hc⟩ := hchanged.of_nested
  exact ⟨b', c', hleft, hc.mono id (Set.sdiff_subset_sdiff_right hG), fun _ _ _ => hG.trans hsub⟩

/-- A declaration that ends inside a scope has bound its name there. -/
theorem Changes.enclosed_execute {fuel : Nat} {s : Stmt}
    (h : Changes True F (execute fuel s)) :
    Enclosed G (s.declared ∪ G) (F \ G) (execute fuel s) := by
  intro m b c hm hG
  obtain ⟨b', c', hleft, hc, hG'⟩ := h.enclosed m b c hm hG
  refine ⟨b', c', hleft, hc, fun v m' hres => Set.union_subset ?_ (hG' v m' hres)⟩
  cases s with
  | declaration name initializer =>
    have hnames := names_of_execute_declaration hres
    rw [hres] at hleft
    change m'.chain = _ at hleft
    rw [hleft, hm, Chain.names_nested, Chain.names_nested, List.modifyHead_cons] at hnames
    have hb' : b'.names = {name.lexeme} ∪ b.names := (List.cons.inj hnames).1
    exact hb' ▸ Set.subset_union_left
  | expression | print | block | branch | loop | misplaced => exact Set.empty_subset _

/-- **A scope of its own**: what was bound in it is gone behind it. -/
theorem changes_inScope {body : Run α} (h : Enclosed ∅ G F body) :
    Changes defines F (inScope body) := by
  intro m
  obtain ⟨b', c', hleft, hc, -⟩ := h (entered m) .empty m.chain rfl (Set.empty_subset _)
  rw [inScope_eq]
  cases hres : body (entered m) with
  | ok a mid =>
    rw [hres] at hleft
    change m.chain.Changed defines F mid.chain.leave
    rw [show mid.chain = _ from hleft]
    exact hc.mono False.elim subset_rfl
  | error stop mid =>
    rw [hres] at hleft
    change m.chain.Changed defines F mid.chain.leave
    rw [show mid.chain = _ from hleft]
    exact hc.mono False.elim subset_rfl

/-! ## Statements -/

/-- Repeating a body: the induction is on the rounds granted. -/
theorem changes_repeatWhile {test : Run Bool} {body : Run Unit} (htest : Changes defines F test)
    (hbody : Changes defines F body) (fuel count : Nat) :
    Changes defines F (repeatWhile test body fuel count) := by
  induction fuel generalizing count with
  | zero => exact changes_throw _
  | succ fuel ih =>
    unfold repeatWhile
    refine changes_bind htest fun goesOn => ?_
    cases goesOn with
    | true => exact changes_bind hbody fun _ => ih (count + 1)
    | false => exact changes_pure count

mutual

/-- **A statement** changes the names that it assigns to freely. -/
theorem changes_execute (fuel : Nat) : ∀ (s : Stmt) {defines : Prop} {F : Set String},
    s.freelyAssigned ⊆ F → (s.declares = true → defines) → Changes defines F (execute fuel s)
  | .expression _, _, _, h, _ => changes_evaluate h
  | .print _, _, _, h, _ =>
    changes_bind (changes_evaluate h) fun v => changes_bind (changes_shown v) fun text =>
      changes_bind (changes_note 4 _) fun _ =>
        changes_bind (changes_print text) fun _ => changes_pure _
  | .declaration name none, _, _, _, hdefines =>
    changes_bind (changes_declare (hdefines rfl) name _) fun _ => changes_pure _
  | .declaration name (some _), _, _, h, hdefines =>
    changes_bind (changes_evaluate h) fun v =>
      changes_bind (changes_declare (hdefines rfl) name v) fun _ => changes_pure _
  | .block body, _, _, h, _ => by
    -- nothing is hidden yet where the block begins
    have hbody := enclosed_executeAll fuel body ∅
    rw [Set.sdiff_empty] at hbody
    exact changes_bind (changes_inScope (hbody.mono h)) fun _ => changes_pure _
  | .branch _ thenBranch none, _, _, h, hdefines => by
    obtain ⟨hcondition, hthen⟩ := Set.union_subset_iff.1 h
    refine changes_bind (changes_branchTaken hcondition) fun taken => ?_
    cases taken with
    | true => exact changes_bind (changes_execute fuel thenBranch hthen hdefines) fun _ =>
        changes_pure _
    | false => exact changes_pure _
  | .branch _ thenBranch (some elseBranch), _, _, h, hdefines => by
    obtain ⟨hcondition, hbranches⟩ := Set.union_subset_iff.1 h
    obtain ⟨hthen, helse⟩ := Set.union_subset_iff.1 hbranches
    rw [Stmt.declares, Bool.or_eq_true] at hdefines
    refine changes_bind (changes_branchTaken hcondition) fun taken => ?_
    cases taken with
    | true =>
      have hchanges := changes_execute fuel thenBranch hthen fun ht => hdefines (.inl ht)
      exact changes_bind hchanges fun _ => changes_pure _
    | false =>
      have hchanges := changes_execute fuel elseBranch helse fun he => hdefines (.inr he)
      exact changes_bind hchanges fun _ => changes_pure _
  | .loop _ body, _, _, h, hdefines => by
    obtain ⟨hcondition, hbody⟩ := Set.union_subset_iff.1 h
    have hround := changes_map (fun _ => ()) (changes_execute fuel body hbody hdefines)
    have hrounds := changes_repeatWhile (changes_holds hcondition) hround fuel 0
    exact changes_bind hrounds fun _ => changes_bind (changes_note 3 _) fun _ => changes_pure _
  | .misplaced _, _, _, _, _ => changes_throw _

/-- **The statements of a block**, in a scope that already binds the names of `G`. -/
theorem enclosed_executeAll (fuel : Nat) : ∀ (ss : List Stmt) (G : Set String),
    Enclosed G ∅ (Stmt.allFreelyAssigned ss \ G) (executeAll fuel ss)
  | [], _ => fun _ b c hm _ => ⟨b, c, hm, .refl c, fun _ _ _ => Set.empty_subset _⟩
  | s :: rest, G => by
    have hs := (changes_execute fuel s subset_rfl fun _ => trivial).enclosed_execute (G := G)
    have hrest := enclosed_executeAll fuel rest (s.declared ∪ G)
    rw [← Set.sdiff_sdiff] at hrest
    rw [Stmt.allFreelyAssigned, Set.union_sdiff_distrib]
    exact enclosed_bind (hs.mono Set.subset_union_left) fun _ => hrest.mono Set.subset_union_right

end

/-- **Variables change only through free assignments.** However a statement ends that is read and no
declaration, every scope in force keeps the value that it has for a name, or none, unless the
statement assigns to the name freely and the scope is the innermost one that binds it. -/
theorem valueIn_execute {s : Stmt} (h : s.Readable)
    (hs : ∀ name initializer, s ≠ .declaration name initializer) (fuel : Nat) (m : Machine) :
    (left (execute fuel s m)).chain.depth = m.chain.depth ∧ ∀ (i : Nat) (x : String),
      (left (execute fuel s m)).chain.valueIn i x = m.chain.valueIn i x ∨
        (x ∈ s.freelyAssigned ∧ m.chain.home? x = some i) := by
  have hdeclares : s.declares = true → False := by simp [h.declares_eq_false hs]
  have hchanged := changes_execute fuel s subset_rfl hdeclares m
  exact ⟨(confined_execute fuel s hdeclares m).chain.depth_eq, hchanged.valueIn_eq_or⟩

/-- The block `{ var b; b = nil; a = nil; }` assigns to `a` freely, and to `b` behind its own
declaration. Where `b` is bound to `true` and `a` is not bound it stops at a runtime error, and `b`
is still bound to `true`. -/
theorem valueIn_execute_block :
    ∃ s : Stmt, s.Readable ∧ s.freelyAssigned = {"a"} ∧
      (left (execute 0 s { chain := Chain.empty.define "b" (some (.boolean true)) })).chain.valueIn
        0 "b" = some (some (.boolean true)) := by
  have hreadable : Stmt.Readable (.block
      [.declaration ⟨.identifier, "b", none, 1⟩ none,
        .expression (.assign ⟨.identifier, "b", none, 1⟩ (.literal (some .nil))),
        .expression (.assign ⟨.identifier, "a", none, 1⟩ (.literal (some .nil)))]) :=
    ⟨[⟨.leftBrace, "\x7b", none, 1⟩,
      ⟨.keyword .varWord, "var", none, 1⟩, ⟨.identifier, "b", none, 1⟩, ⟨.semicolon, ";", none, 1⟩,
      ⟨.identifier, "b", none, 1⟩, ⟨.equal, "=", none, 1⟩, ⟨.keyword .nilWord, "nil", none, 1⟩,
      ⟨.semicolon, ";", none, 1⟩,
      ⟨.identifier, "a", none, 1⟩, ⟨.equal, "=", none, 1⟩, ⟨.keyword .nilWord, "nil", none, 1⟩,
      ⟨.semicolon, ";", none, 1⟩,
      ⟨.rightBrace, "\x7d", none, 1⟩], [], rfl⟩
  have hfree : Stmt.freelyAssigned (.block
      [.declaration ⟨.identifier, "b", none, 1⟩ none,
        .expression (.assign ⟨.identifier, "b", none, 1⟩ (.literal (some .nil))),
        .expression (.assign ⟨.identifier, "a", none, 1⟩ (.literal (some .nil)))]) = {"a"} := by
    simp [Stmt.freelyAssigned, Stmt.allFreelyAssigned, Stmt.declared, Expr.assigned]
  refine ⟨_, hreadable, hfree, ?_⟩
  rcases (valueIn_execute hreadable nofun 0 _).2 0 "b" with hsame | ⟨hb, -⟩
  · rw [hsame]
    simp [Chain.define, Chain.empty]
  · rw [hfree] at hb
    exact absurd hb (by simp)

end Run

end Lox
