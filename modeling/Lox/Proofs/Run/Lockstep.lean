import Lox.Proofs.Grammar.Placement
import Lox.Proofs.Lines
import Lox.Proofs.Run.Mentions
import Lox.Proofs.Run.Programs
import Lox.Proofs.Scope.Writes

/-! # Two runs in step

The same program may run on two machines that differ in something it does not depend on: in their
traces, in bindings of names that it does not mention, or in how deep their scopes are nested. What
the machines have in common is kept by everything that a run does, so both runs print the same, and
they end with the same answer or stop at the same stop. The second program may be the first one on
other lines.

* **`Run.Link`**, **`Run.Bond`** — what machines have in common is kept by the single steps that
  expressions take, or by all steps of a run;
* **`Run.Inside`**, **`Run.Deeper`** — what they have in common inside a scope that both opened, or
  only the first one;
* **`Run.InStep`** — two actions keep what machines have in common and end in the same way;
* **`Run.KeepsStep`** — what may be put for the expressions of a program;
* **`Run.inStep_evaluate`**, **`Run.inStep_execute`**, **`Run.inStep_foldlM_execute`** —
  expressions, statements and programs run in step. -/

namespace Lox

namespace Run

/-! ## What two machines have in common -/

variable {N : Set String} {same : Prop} {Q : Machine → Machine → Prop} {m m' : Machine}

/-- **What two machines have in common is a link** over the names of `N` if they look the same under
these names, and whatever expressions do on both of them keeps it: assigning to such a name, and
adding entries to the traces. -/
structure Link (N : Set String) (same : Prop) (Q : Machine → Machine → Prop) : Prop where
  get?_eq {m m' : Machine} (h : Q m m') {x : String} (hx : x ∈ N) :
    m.chain.get? x = m'.chain.get? x
  shown {m m' : Machine} (h : Q m m') {x : String} (hx : x ∈ N) {v : Option Value}
    (hv : m.chain.get? x = some v) : Shown same v
  assign {m m' : Machine} (h : Q m m') {x : String} (hx : x ∈ N) {v : Option Value}
    (hv : Shown same v) {c c' : Chain} (hc : m.chain.assign? x v = some c)
    (hc' : m'.chain.assign? x v = some c') : Q { m with chain := c } { m' with chain := c' }
  trace {m m' : Machine} (h : Q m m') {t t' : Trace} (ht : t.level = m.trace.level)
    (ht' : t'.level = m'.trace.level) : Q { m with trace := t } { m' with trace := t' }
  level {m m' : Machine} (h : Q m m') (hsame : same) : m.trace.level = m'.trace.level

/-- **A link is a bond** if it is also kept when both machines print a line. -/
structure Bond (N : Set String) (same : Prop) (Q : Machine → Machine → Prop) : Prop
    extends Link N same Q where
  print {m m' : Machine} (h : Q m m') (line : String) :
    Q { m with output := m.output.push line } { m' with output := m'.output.push line }

/-- A bond that is also kept when both machines define a name of `N` in their innermost scopes. -/
def KeptByDefining (N : Set String) (same : Prop) (Q : Machine → Machine → Prop) : Prop :=
  ∀ ⦃m m' : Machine⦄, Q m m' → ∀ ⦃x : String⦄, x ∈ N → ∀ ⦃v : Option Value⦄, Shown same v →
    Q { m with chain := m.chain.define x v } { m' with chain := m'.chain.define x v }

/-- The first machine takes the place of the second one. -/
theorem Bond.flip (h : Bond N same Q) : Bond N same (flip Q) where
  get?_eq hq _ hx := (h.get?_eq hq hx).symm
  shown hq _ hx _ hv := h.shown hq hx ((h.get?_eq hq hx).trans hv)
  assign hq _ hx _ hv _ _ hc hc' := h.assign hq hx hv hc' hc
  print hq line := h.print hq line
  trace hq _ _ ht ht' := h.trace hq ht' ht
  level hq hsame := (h.level hq hsame).symm

/-! ### Scopes that both machines opened -/

/-- **Inside a scope that both machines opened** the bindings are the same, and outside of it the
machines have in common what they had. -/
def Inside (same : Prop) (Q : Machine → Machine → Prop) (m m' : Machine) : Prop :=
  ∃ b c c', m.chain = .nested b c ∧ m'.chain = .nested b c' ∧
    (∀ x v, b.get? x = some v → Shown same v) ∧ Q { m with chain := c } { m' with chain := c' }

/-- Bindings that can be shown stay so. -/
theorem shown_set {b : Bindings} (h : ∀ x v, b.get? x = some v → Shown same v) {v : Option Value}
    (hv : Shown same v) (x : String) : ∀ y w, (b.set x v).get? y = some w → Shown same w := by
  intro y w hw
  rw [Bindings.get?_set] at hw
  split at hw
  · cases hw
    exact hv
  · exact h y w hw

/-- Inside a scope that both machines opened the bond lasts. -/
theorem Bond.inside (h : Bond N same Q) : Bond N same (Inside same Q) where
  get?_eq := by
    rintro ⟨_, output, trace⟩ ⟨_, output', trace'⟩ ⟨b, c, c', rfl, rfl, -, hq⟩ x hx
    show Chain.get? _ x = Chain.get? _ x
    rw [Chain.get?, Chain.get?, h.get?_eq hq hx]
  shown := by
    rintro ⟨_, output, trace⟩ ⟨_, output', trace'⟩ ⟨b, c, c', rfl, rfl, hb, hq⟩ x hx v hv
    change Chain.get? _ x = some v at hv
    rw [Chain.get?] at hv
    split at hv
    · next w hw =>
      cases hv
      exact hb x v hw
    · exact h.shown hq hx hv
  assign := by
    rintro ⟨_, output, trace⟩ ⟨_, output', trace'⟩ ⟨b, c, c', rfl, rfl, hb, hq⟩ x hx v hv
      d d' hd hd'
    -- both assign to the scope that they opened, or both to the scopes around it
    rcases Chain.assign?_nested_eq_some_iff.1 hd with ⟨hbinds, rfl⟩ | ⟨hfree, e, he, rfl⟩
    · rcases Chain.assign?_nested_eq_some_iff.1 hd' with ⟨-, rfl⟩ | ⟨hfree', -⟩
      · exact ⟨_, c, c', rfl, rfl, shown_set hb hv x, hq⟩
      · rw [hbinds] at hfree'
        cases hfree'
    · rcases Chain.assign?_nested_eq_some_iff.1 hd' with ⟨hbinds', -⟩ | ⟨-, e', he', rfl⟩
      · rw [hfree] at hbinds'
        cases hbinds'
      · exact ⟨b, e, e', rfl, rfl, hb, h.assign hq hx hv he he'⟩
  print := by
    rintro ⟨_, output, trace⟩ ⟨_, output', trace'⟩ ⟨b, c, c', rfl, rfl, hb, hq⟩ line
    exact ⟨b, c, c', rfl, rfl, hb, h.print hq line⟩
  trace := by
    rintro ⟨_, output, trace⟩ ⟨_, output', trace'⟩ ⟨b, c, c', rfl, rfl, hb, hq⟩ t t' ht ht'
    exact ⟨b, c, c', rfl, rfl, hb, h.trace hq ht ht'⟩
  level := by
    rintro ⟨_, output, trace⟩ ⟨_, output', trace'⟩ ⟨b, c, c', rfl, rfl, -, hq⟩ hsame
    have hlevel := h.level hq hsame
    exact hlevel

/-- Inside a scope that both machines opened they define the same names. -/
theorem keptByDefining_inside : KeptByDefining N same (Inside same Q) := by
  rintro ⟨_, output, trace⟩ ⟨_, output', trace'⟩ ⟨b, c, c', rfl, rfl, hb, hq⟩ x - v hv
  exact ⟨_, c, c', rfl, rfl, shown_set hb hv x, hq⟩

/-- Both machines open a scope. -/
theorem Bond.entered (h : Bond N same Q) (hq : Q m m') :
    Inside same Q (entered m) (entered m') := by
  refine ⟨.empty, m.chain, m'.chain, rfl, rfl, fun x v hv => ?_, ?_⟩
  · rw [Bindings.get?_empty] at hv
    cases hv
  · exact h.trace hq (Trace.level_note _ _ _) (Trace.level_note _ _ _)

/-- Both machines close the scope that they opened. -/
theorem Bond.closed (h : Bond N same Q) (hq : Inside same Q m m') (depth depth' : Nat) :
    Q (closed depth m) (closed depth' m') := by
  obtain ⟨_, output, trace⟩ := m
  obtain ⟨_, output', trace'⟩ := m'
  obtain ⟨b, c, c', rfl, rfl, -, hq⟩ := hq
  exact h.trace hq (Trace.level_note _ _ _) (Trace.level_note _ _ _)

/-! ### A scope that one machine opened -/

/-- **Inside a scope that only the first machine opened** nothing is bound, and outside of it the
machines have in common what they had. -/
def Deeper (Q : Machine → Machine → Prop) (m m' : Machine) : Prop :=
  ∃ c, m.chain = .nested .empty c ∧ Q { m with chain := c } m'

/-- Inside a scope that only the first machine opened the bond lasts, as long as none defines a
name. -/
theorem Bond.deeper (h : Bond N same Q) : Bond N same (Deeper Q) where
  get?_eq := by
    rintro ⟨_, output, trace⟩ m' ⟨c, rfl, hq⟩ x hx
    exact h.get?_eq hq hx
  shown := by
    rintro ⟨_, output, trace⟩ m' ⟨c, rfl, hq⟩ x hx v hv
    exact h.shown hq hx hv
  assign := by
    rintro ⟨_, output, trace⟩ m' ⟨c, rfl, hq⟩ x hx v hv d d' hd hd'
    obtain ⟨e, he, rfl⟩ := Chain.assign?_nested_empty_eq_some_iff.1 hd
    exact ⟨e, rfl, h.assign hq hx hv he hd'⟩
  print := by
    rintro ⟨_, output, trace⟩ m' ⟨c, rfl, hq⟩ line
    exact ⟨c, rfl, h.print hq line⟩
  trace := by
    rintro ⟨_, output, trace⟩ m' ⟨c, rfl, hq⟩ t t' ht ht'
    exact ⟨c, rfl, h.trace hq ht ht'⟩
  level := by
    rintro ⟨_, output, trace⟩ m' ⟨c, rfl, hq⟩ hsame
    have hlevel := h.level hq hsame
    exact hlevel

/-- The first machine opens a scope. -/
theorem Bond.entered_left (h : Bond N same Q) (hq : Q m m') : Deeper Q (Run.entered m) m' :=
  ⟨m.chain, rfl, h.trace hq (Trace.level_note _ _ _) rfl⟩

/-- The first machine closes the scope that it opened. -/
theorem Bond.closed_left (h : Bond N same Q) (hq : Deeper Q m m') (depth : Nat) :
    Q (Run.closed depth m) m' := by
  obtain ⟨_, output, trace⟩ := m
  obtain ⟨c, rfl, hq⟩ := hq
  exact h.trace hq (Trace.level_note _ _ _) rfl

/-! ## Actions in step -/

variable {f : Int → Int} {α β : Type} {P P' : α → Prop} {R : β → Prop}

/-- Two runs ended in the same way, on machines related by `Q`: with the same answer, one that `P`
allows, or at the same stop, the second one on another line. -/
def Ended (f : Int → Int) (Q : Machine → Machine → Prop) (P : α → Prop) :
    EStateM.Result Stop Machine α → EStateM.Result Stop Machine α → Prop
  | .ok a m, .ok a' m' => a = a' ∧ P a ∧ Q m m'
  | .error stop m, .error stop' m' => stop.moved f = stop' ∧ Q m m'
  | _, _ => False

/-- Both runs ended with an answer, or both stopped. -/
theorem Ended.ok_or_error {r r' : EStateM.Result Stop Machine α} (h : Ended f Q P r r') :
    (∃ a m m', r = .ok a m ∧ r' = .ok a m' ∧ P a ∧ Q m m') ∨
      ∃ stop m m', r = .error stop m ∧ r' = .error (stop.moved f) m' ∧ Q m m' := by
  cases r with
  | ok a m =>
    cases r' with
    | ok a' m' =>
      obtain ⟨rfl, ha, hq⟩ := h
      exact .inl ⟨a, m, m', rfl, rfl, ha, hq⟩
    | error stop' m' => exact h.elim
  | error stop m =>
    cases r' with
    | ok a' m' => exact h.elim
    | error stop' m' =>
      obtain ⟨rfl, hq⟩ := h
      exact .inr ⟨stop, m, m', rfl, rfl, hq⟩

/-- **Two actions are in step**: on machines related by `Q` they end in the same way. -/
def InStep (f : Int → Int) (Q : Machine → Machine → Prop) (P : α → Prop) (x x' : Run α) : Prop :=
  ∀ m m' : Machine, Q m m' → Ended f Q P (x m) (x' m')

/-- An answer that says less. -/
theorem InStep.mono {x x' : Run α} (h : InStep f Q P x x') (himp : ∀ a, P a → P' a) :
    InStep f Q P' x x' := by
  intro m m' hq
  rcases (h m m' hq).ok_or_error with
    ⟨a, mid, mid', hres, hres', ha, hmid⟩ | ⟨stop, mid, mid', hres, hres', hmid⟩
  · rw [hres, hres']
    exact ⟨rfl, himp a ha, hmid⟩
  · rw [hres, hres']
    exact ⟨rfl, hmid⟩

/-- An answer at hand. -/
theorem inStep_pure {a : α} (h : P a) : InStep f Q P (pure a) (pure a) :=
  fun _ _ hq => ⟨rfl, h, hq⟩

/-- Stopping. -/
theorem inStep_throw (stop : Stop) : InStep f Q P (throw stop : Run α) (throw (stop.moved f)) :=
  fun _ _ hq => ⟨rfl, hq⟩

/-- One action after the other. -/
theorem inStep_bind {x x' : Run α} {k k' : α → Run β} (hx : InStep f Q P x x')
    (hk : ∀ a, P a → InStep f Q R (k a) (k' a)) : InStep f Q R (x >>= k) (x' >>= k') := by
  intro m m' hq
  show Ended f Q R (EStateM.bind x k m) (EStateM.bind x' k' m')
  unfold EStateM.bind
  -- both first actions end in the same way
  rcases (hx m m' hq).ok_or_error with
    ⟨a, mid, mid', hxm, hxm', ha, hmid⟩ | ⟨stop, mid, mid', hxm, hxm', hmid⟩
  · rw [hxm, hxm']
    exact hk a ha mid mid' hmid
  · rw [hxm, hxm']
    exact ⟨rfl, hmid⟩

/-- The same action behind others, whose answers do not matter. -/
theorem inStep_bind_const {x x' : Run α} {y y' : Run β} (hx : InStep f Q P x x')
    (hy : InStep f Q R y y') : InStep f Q R (x >>= fun _ => y) (x' >>= fun _ => y') :=
  inStep_bind hx fun _ _ => hy

/-- Work on an answer. -/
theorem inStep_map {x x' : Run α} (k : α → β) (hx : InStep f Q P x x')
    (hk : ∀ a, P a → R (k a)) : InStep f Q R (k <$> x) (k <$> x') := by
  rw [map_eq_pure_bind, map_eq_pure_bind]
  exact inStep_bind hx fun a ha => inStep_pure (hk a ha)

/-- Showing a value. -/
theorem inStep_shown (v : Option Value) :
    InStep f Q (fun _ => True) (shown v) (shown v) := by
  cases v with
  | none => exact inStep_throw _
  | some v => exact inStep_pure trivial

/-! ## Expressions -/

section Link

variable (h : Link N same Q)
include h

/-- Adding trace entries, whatever they say. -/
theorem inStep_note (level : Int) (text text' : Unit → String) :
    InStep f Q (fun _ => True) (note level text) (note level text') :=
  fun _ _ hq => ⟨rfl, trivial, h.trace hq (Trace.level_note _ _ _) (Trace.level_note _ _ _)⟩

/-- Adding trace entries that show a value. -/
theorem inStep_noteValue (level : Int) (v : Option Value) (text text' : String → String) :
    InStep f Q (fun _ => True) (noteValue level v text) (noteValue level v text') := by
  cases v with
  | none => exact inStep_throw _
  | some v => exact inStep_note h level _ _

/-- Looking a name up. -/
theorem inStep_lookup {name : Token} (hname : name.lexeme ∈ N) :
    InStep f Q (Shown same) (lookup name) (lookup (name.moved f)) := by
  intro m m' hq
  have hget := h.get?_eq hq hname
  unfold lookup
  rw [Token.lexeme_moved, ← hget]
  cases hv : m.chain.get? name.lexeme with
  | none => exact ⟨rfl, hq⟩
  | some v => exact ⟨rfl, h.shown hq hname hv, hq⟩

/-- Assigning to a name. -/
theorem inStep_assign {name : Token} (hname : name.lexeme ∈ N) {v : Option Value}
    (hv : Shown same v) :
    InStep f Q (fun _ => True) (assign name v) (assign (name.moved f) v) := by
  intro m m' hq
  have hget := h.get?_eq hq hname
  unfold assign
  rw [Token.lexeme_moved]
  -- both machines bind the name, or none of them
  cases hassign : m.chain.assign? name.lexeme v with
  | none =>
    rw [Chain.assign?_eq_none_iff, hget, ← Chain.assign?_eq_none_iff] at hassign
    rw [hassign]
    exact ⟨rfl, hq⟩
  | some c =>
    cases hassign' : m'.chain.assign? name.lexeme v with
    | none =>
      rw [Chain.assign?_eq_none_iff, ← hget, ← Chain.assign?_eq_none_iff, hassign] at hassign'
      cases hassign'
    | some c' => exact ⟨rfl, trivial, h.assign hq hname hv hassign hassign'⟩

/-- Declaring a name. The scopes that the entries count may be more on one machine. -/
theorem inStep_declare (hdefining : KeptByDefining N same Q) {name : Token}
    (hname : name.lexeme ∈ N) {v : Option Value} (hv : Shown same v) :
    InStep f Q (fun _ => True) (declare name v) (declare (name.moved f) v) := by
  intro m m' hq
  have hdefined := hdefining hq hname hv
  cases v with
  | none => exact ⟨rfl, hdefined⟩
  | some v => exact inStep_note h 2 _ _ _ _ hdefined

omit h in
/-- A sign in front of an operand. -/
theorem inStep_applyUnary (operator : Token) (v : Option Value) :
    InStep f Q (Shown same) (applyUnary operator v) (applyUnary (operator.moved f) v) := by
  unfold applyUnary
  rw [Token.kind_moved]
  split
  · exact inStep_pure (.inr rfl)
  · split
    · exact inStep_pure (.inr rfl)
    · exact inStep_throw _
  · exact inStep_throw _

omit h in
/-- An operator between two operands. -/
theorem inStep_applyBinary (operator : Token) (v w : Option Value) :
    InStep f Q (Shown same) (applyBinary operator v w) (applyBinary (operator.moved f) v w) := by
  unfold applyBinary
  rw [Token.kind_moved]
  split
  · exact inStep_pure (.inr rfl)
  · exact inStep_pure (.inr rfl)
  · split
    · exact inStep_pure (.inr rfl)
    · exact inStep_pure (.inr rfl)
    · exact inStep_throw _
  · split
    · split
      · exact inStep_pure (.inr rfl)
      · exact inStep_throw _
    · exact inStep_throw _

omit h in
/-- The entry of a value changes the trace at most. -/
theorem exists_noted_eq_ok (kind : NodeKind) (v : Value) (m : Machine) :
    ∃ t : Trace, t.level = m.trace.level ∧
      noted kind (some v) m = .ok (some v) { m with trace := t } := by
  show ∃ t : Trace, t.level = m.trace.level ∧
    (if keepsLevel m.trace.level 4 = true then
        noteValue 4 (some v) (fun text => kind.name ++ " -> " ++ text) >>= fun _ => pure (some v)
      else pure (some v) : Run (Option Value)) m = _
  split
  · exact ⟨_, Trace.level_note _ _ _, rfl⟩
  · exact ⟨m.trace, rfl, rfl⟩

/-- The entry of an evaluated expression: one machine may keep it and the other one not, if there is
a value to show. -/
theorem inStep_noted (kind : NodeKind) {v : Option Value} (hv : Shown same v) :
    InStep f Q (Shown same) (noted kind v) (noted kind v) := by
  intro m m' hq
  cases v with
  | some v =>
    obtain ⟨t, ht, hres⟩ := exists_noted_eq_ok kind v m
    obtain ⟨t', ht', hres'⟩ := exists_noted_eq_ok kind v m'
    rw [hres, hres']
    exact ⟨rfl, hv, h.trace hq ht ht'⟩
  | none =>
    have hlevel := h.level hq (hv.resolve_right nofun)
    show Ended f Q (Shown same)
      ((if keepsLevel m.trace.level 4 = true then
          noteValue 4 none (fun text => kind.name ++ " -> " ++ text) >>= fun _ => pure none
        else pure none : Run (Option Value)) m)
      ((if keepsLevel m'.trace.level 4 = true then
          noteValue 4 none (fun text => kind.name ++ " -> " ++ text) >>= fun _ => pure none
        else pure none : Run (Option Value)) m')
    rw [hlevel]
    split
    · exact ⟨rfl, hq⟩
    · exact ⟨rfl, hv, hq⟩

section Forms

variable {e e' left left' right right' : Expr}

/-- Parentheses around what is evaluated in step. -/
theorem inStep_evaluate_grouping (he : InStep f Q (Shown same) (evaluate e) (evaluate e')) :
    InStep f Q (Shown same) (evaluate (.grouping e)) (evaluate (.grouping e')) :=
  inStep_bind he fun _ hv => inStep_noted h _ hv

/-- A sign in front of what is evaluated in step. -/
theorem inStep_evaluate_unary (operator : Token)
    (hright : InStep f Q (Shown same) (evaluate right) (evaluate right')) :
    InStep f Q (Shown same) (evaluate (.unary operator right))
      (evaluate (.unary (operator.moved f) right')) := by
  refine inStep_bind hright fun v _ => ?_
  exact inStep_bind (inStep_applyUnary operator v) fun w hw => inStep_noted h _ hw

/-- An operator between what is evaluated in step. -/
theorem inStep_evaluate_binary (operator : Token)
    (hleft : InStep f Q (Shown same) (evaluate left) (evaluate left'))
    (hright : InStep f Q (Shown same) (evaluate right) (evaluate right')) :
    InStep f Q (Shown same) (evaluate (.binary left operator right))
      (evaluate (.binary left' (operator.moved f) right')) := by
  refine inStep_bind hleft fun v _ => inStep_bind hright fun w _ => ?_
  exact inStep_bind (inStep_applyBinary operator v w) fun u hu => inStep_noted h _ hu

/-- A logical operator between what is evaluated in step. -/
theorem inStep_evaluate_logical (operator : Token)
    (hleft : InStep f Q (Shown same) (evaluate left) (evaluate left'))
    (hright : InStep f Q (Shown same) (evaluate right) (evaluate right')) :
    InStep f Q (Shown same) (evaluate (.logical left operator right))
      (evaluate (.logical left' (operator.moved f) right')) := by
  refine inStep_bind hleft fun v hv => ?_
  show InStep f Q (Shown same) (if decides operator v = true then pure v >>= noted .logical
      else evaluate right >>= noted .logical)
    (if decides operator v = true then pure v >>= noted .logical
      else evaluate right' >>= noted .logical)
  split
  · exact inStep_bind (inStep_pure hv) fun w hw => inStep_noted h _ hw
  · exact inStep_bind hright fun w hw => inStep_noted h _ hw

/-- A reference. -/
theorem inStep_evaluate_reference {name : Token} (hname : name.lexeme ∈ N) :
    InStep f Q (Shown same) (evaluate (.reference name)) (evaluate (.reference (name.moved f))) :=
  inStep_bind (inStep_lookup h hname) fun _ hv => inStep_noted h _ hv

/-- An assignment of what is evaluated in step. -/
theorem inStep_evaluate_assign {name : Token} (hname : name.lexeme ∈ N)
    (he : InStep f Q (Shown same) (evaluate e) (evaluate e')) :
    InStep f Q (Shown same) (evaluate (.assign name e)) (evaluate (.assign (name.moved f) e')) := by
  refine inStep_bind he fun v hv => inStep_bind_const (inStep_assign h hname hv) ?_
  exact inStep_bind_const (inStep_noteValue h 2 v _ _) (inStep_noted h _ hv)

end Forms

/-- **Expressions are evaluated in step.** -/
theorem inStep_evaluate {e : Expr} (he : e.Over N same) :
    InStep f Q (Shown same) (evaluate e) (evaluate (e.moved f)) := by
  induction e with
  | literal value => exact inStep_noted h _ he
  | grouping inner ih => exact inStep_evaluate_grouping h (ih he)
  | unary operator right ih => exact inStep_evaluate_unary h operator (ih he)
  | binary left operator right ihLeft ihRight =>
    exact inStep_evaluate_binary h operator (ihLeft he.1) (ihRight he.2)
  | logical left operator right ihLeft ihRight =>
    exact inStep_evaluate_logical h operator (ihLeft he.1) (ihRight he.2)
  | reference name => exact inStep_evaluate_reference h he
  | assign name inner ih => exact inStep_evaluate_assign h he.1 (ih he.2)
  | misplaced node => exact inStep_throw _

omit h in
/-- A condition that is evaluated in step. -/
theorem inStep_holds {condition condition' : Expr}
    (hcondition : InStep f Q (Shown same) (evaluate condition) (evaluate condition')) :
    InStep f Q (fun _ => True) (holds condition) (holds condition') :=
  inStep_map _ hcondition fun _ _ => trivial

/-- The condition of a branch, evaluated in step. -/
theorem inStep_branchTaken {condition condition' : Expr}
    (hcondition : InStep f Q (Shown same) (evaluate condition) (evaluate condition')) :
    InStep f Q (fun _ => True) (branchTaken condition) (branchTaken condition') :=
  inStep_bind (inStep_holds hcondition) fun _ _ =>
    inStep_bind_const (inStep_note h 3 _ _) (inStep_pure trivial)

end Link

/-! ## Statements -/

/-- Repeating a body: the induction is on the rounds granted. -/
theorem inStep_repeatWhile {test test' : Run Bool} {body body' : Run Unit}
    (htest : InStep f Q (fun _ => True) test test')
    (hbody : InStep f Q (fun _ => True) body body') (fuel count : Nat) :
    InStep f Q (fun _ => True) (repeatWhile test body fuel count)
      (repeatWhile test' body' fuel count) := by
  induction fuel generalizing count with
  | zero => exact inStep_throw _
  | succ fuel ih =>
    unfold repeatWhile
    refine inStep_bind htest fun goesOn _ => ?_
    cases goesOn with
    | true => exact inStep_bind_const hbody (ih (count + 1))
    | false => exact inStep_pure trivial

section Bond

variable (h : Bond N same Q)
include h

/-- Printing a line. -/
theorem inStep_print (line : String) : InStep f Q (fun _ => True) (print line) (print line) :=
  fun _ _ hq => ⟨rfl, trivial, h.print hq line⟩

/-- A scope of its own. -/
theorem inStep_inScope {body body' : Run α} (hbody : InStep f (Inside same Q) P body body') :
    InStep f Q P (inScope body) (inScope body') := by
  intro m m' hq
  rw [inScope_eq, inScope_eq]
  rcases (hbody _ _ (h.entered hq)).ok_or_error with
    ⟨a, mid, mid', hres, hres', ha, hmid⟩ | ⟨stop, mid, mid', hres, hres', hmid⟩
  · rw [hres, hres']
    exact ⟨rfl, ha, h.closed hmid _ _⟩
  · rw [hres, hres']
    exact ⟨rfl, h.closed hmid _ _⟩

/-- A scope of its own, which only the first action opens. -/
theorem inStep_inScope_left {body body' : Run α} (hbody : InStep f (Deeper Q) P body body') :
    InStep f Q P (inScope body) body' := by
  intro m m' hq
  rw [inScope_eq]
  rcases (hbody _ _ (h.entered_left hq)).ok_or_error with
    ⟨a, mid, mid', hres, hres', ha, hmid⟩ | ⟨stop, mid, mid', hres, hres', hmid⟩
  · rw [hres, hres']
    exact ⟨rfl, ha, h.closed_left hmid _⟩
  · rw [hres, hres']
    exact ⟨rfl, h.closed_left hmid _⟩

end Bond

/-- **What is put for expressions keeps step**: whatever machines have in common, what is put for an
expression is evaluated in step with it. -/
def KeepsStep (f : Int → Int) (N : Set String) (same : Prop) (k : Expr → Expr) : Prop :=
  ∀ ⦃Q : Machine → Machine → Prop⦄, Link N same Q → ∀ ⦃e : Expr⦄, e.Over N same →
    InStep f Q (Shown same) (evaluate e) (evaluate (k e))

section Mapped

variable {k : Expr → Expr}

mutual

/-- **Statements are executed in step** with those in which something that keeps step is put for
their expressions. Where a statement may declare a name, machines that do so have to keep what they
have in common. -/
theorem inStep_execute_mapped (hk : KeepsStep f N same k) (fuel : Nat) :
    ∀ (s : Stmt) {Q : Machine → Machine → Prop}, Bond N same Q → s.Over N same →
      (s.declares = true → KeptByDefining N same Q) →
        InStep f Q (fun _ => True) (execute fuel s) (execute fuel (s.mapped (Token.moved f) k))
  | .expression _, _, h, hs, _ => (hk h.toLink hs).mono fun _ _ => trivial
  | .print _, _, h, hs, _ =>
    inStep_bind (hk h.toLink hs) fun v _ => inStep_bind (inStep_shown v) fun text _ =>
      inStep_bind_const (inStep_note h.toLink 4 _ _)
        (inStep_bind_const (inStep_print h text) (inStep_pure trivial))
  | .declaration _ none, _, h, hs, hdefining =>
    inStep_bind_const (inStep_declare h.toLink (hdefining rfl) hs (.inr rfl)) (inStep_pure trivial)
  | .declaration _ (some _), _, h, hs, hdefining =>
    inStep_bind (hk h.toLink hs.2) fun _ hv =>
      inStep_bind_const (inStep_declare h.toLink (hdefining rfl) hs.1 hv) (inStep_pure trivial)
  | .block body, _, h, hs, _ => by
    have hbody := inStep_executeAll_mapped hk fuel body h.inside hs keptByDefining_inside
    exact inStep_bind_const (inStep_inScope h hbody) (inStep_pure trivial)
  | .branch _ thenBranch none, _, h, hs, hdefining => by
    refine inStep_bind (inStep_branchTaken h.toLink (hk h.toLink hs.1)) fun taken _ => ?_
    have hthen := inStep_execute_mapped hk fuel thenBranch h hs.2 hdefining
    cases taken with
    | true => exact inStep_bind_const hthen (inStep_pure trivial)
    | false => exact inStep_pure trivial
  | .branch _ thenBranch (some elseBranch), _, h, hs, hdefining => by
    rw [Stmt.declares, Bool.or_eq_true] at hdefining
    refine inStep_bind (inStep_branchTaken h.toLink (hk h.toLink hs.1)) fun taken _ => ?_
    have hthen := inStep_execute_mapped hk fuel thenBranch h hs.2.1 fun ht => hdefining (.inl ht)
    have helse := inStep_execute_mapped hk fuel elseBranch h hs.2.2 fun he => hdefining (.inr he)
    cases taken with
    | true => exact inStep_bind_const hthen (inStep_pure trivial)
    | false => exact inStep_bind_const helse (inStep_pure trivial)
  | .loop _ body, _, h, hs, hdefining => by
    have hbody := inStep_map (R := fun _ => True) (fun _ => ())
      (inStep_execute_mapped hk fuel body h hs.2 hdefining) fun _ _ => trivial
    refine inStep_bind (inStep_repeatWhile (inStep_holds (hk h.toLink hs.1)) hbody fuel 0)
      fun _ _ => ?_
    exact inStep_bind_const (inStep_note h.toLink 3 _ _) (inStep_pure trivial)
  | .misplaced _, _, _, _, _ => inStep_throw _

/-- Statements are executed in step one after the other. -/
theorem inStep_executeAll_mapped (hk : KeepsStep f N same k) (fuel : Nat) :
    ∀ (ss : List Stmt) {Q : Machine → Machine → Prop}, Bond N same Q → Stmt.AllOver N same ss →
      KeptByDefining N same Q → InStep f Q (fun _ => True) (executeAll fuel ss)
        (executeAll fuel (Stmt.allMapped (Token.moved f) k ss))
  | [], _, _, _, _ => inStep_pure trivial
  | s :: rest, _, h, hss, hdefining =>
    inStep_bind_const (inStep_execute_mapped hk fuel s h hss.1 fun _ => hdefining)
      (inStep_executeAll_mapped hk fuel rest h hss.2 hdefining)

end

/-- **Programs run in step**, behind whatever value was yielded before, with those in which
something that keeps step is put for their expressions. -/
theorem inStep_foldlM_execute_mapped (hk : KeepsStep f N same k) (fuel : Nat)
    (h : Bond N same Q) (hdefining : KeptByDefining N same Q) {statements : List Stmt}
    (hover : Stmt.AllOver N same statements) (v : Option Value) :
    InStep f Q (fun _ => True) (statements.foldlM (fun _ s => execute fuel s) v)
      ((Stmt.allMapped (Token.moved f) k statements).foldlM (fun _ s => execute fuel s) v) := by
  induction statements generalizing v with
  | nil => exact inStep_pure trivial
  | cons s rest ih =>
    rw [Stmt.allMapped, List.foldlM_cons, List.foldlM_cons]
    exact inStep_bind (inStep_execute_mapped hk fuel s h hover.1 fun _ => hdefining)
      fun w _ => ih hover.2 w

end Mapped

/-- Expressions keep step on other lines. -/
theorem keepsStep_moved : KeepsStep f N same (Expr.moved f) := fun _ h _ he => inStep_evaluate h he

/-- **Statements are executed in step** on other lines. -/
theorem inStep_execute (fuel : Nat) (s : Stmt) {Q : Machine → Machine → Prop} (h : Bond N same Q)
    (hs : s.Over N same) (hdefining : s.declares = true → KeptByDefining N same Q) :
    InStep f Q (fun _ => True) (execute fuel s) (execute fuel (s.moved f)) := by
  rw [Stmt.moved_eq_mapped]
  exact inStep_execute_mapped keepsStep_moved fuel s h hs hdefining

/-- Statements are executed in step one after the other, on other lines. -/
theorem inStep_executeAll (fuel : Nat) (ss : List Stmt) {Q : Machine → Machine → Prop}
    (h : Bond N same Q) (hss : Stmt.AllOver N same ss) (hdefining : KeptByDefining N same Q) :
    InStep f Q (fun _ => True) (executeAll fuel ss) (executeAll fuel (Stmt.allMoved f ss)) := by
  rw [Stmt.allMoved_eq_allMapped]
  exact inStep_executeAll_mapped keepsStep_moved fuel ss h hss hdefining

/-- **Programs run in step** on other lines, behind whatever value was yielded before. -/
theorem inStep_foldlM_execute (fuel : Nat) (h : Bond N same Q) (hdefining : KeptByDefining N same Q)
    {statements : List Stmt} (hover : Stmt.AllOver N same statements) (v : Option Value) :
    InStep f Q (fun _ => True) (statements.foldlM (fun _ s => execute fuel s) v)
      ((Stmt.allMoved f statements).foldlM (fun _ s => execute fuel s) v) := by
  rw [Stmt.allMoved_eq_allMapped]
  exact inStep_foldlM_execute_mapped keepsStep_moved fuel h hdefining hover v

/-! ## On the same lines -/

/-- On the same lines each of two actions is in step with the other one. -/
theorem InStep.flip {x x' : Run α} (h : InStep id Q P x x') : InStep id (flip Q) P x' x := by
  intro m' m hq
  rcases (h m m' hq).ok_or_error with
    ⟨a, mid, mid', hres, hres', ha, hmid⟩ | ⟨stop, mid, mid', hres, hres', hmid⟩
  · rw [hres, hres']
    exact ⟨rfl, ha, hmid⟩
  · rw [hres, hres', stop.moved_id]
    exact ⟨stop.moved_id, hmid⟩

/-- An expression is evaluated in step with itself. -/
theorem inStep_evaluate_self (h : Link N same Q) {e : Expr} (he : e.Over N same) :
    InStep id Q (Shown same) (evaluate e) (evaluate e) := by
  have hstep := inStep_evaluate (f := id) h he
  rwa [Expr.moved_id] at hstep

/-- A statement is executed in step with itself. -/
theorem inStep_execute_self (fuel : Nat) (h : Bond N same Q) {s : Stmt} (hs : s.Over N same)
    (hdefining : s.declares = true → KeptByDefining N same Q) :
    InStep id Q (fun _ => True) (execute fuel s) (execute fuel s) := by
  have hstep := inStep_execute (f := id) fuel s h hs hdefining
  rwa [Stmt.moved_id] at hstep

section

variable (fuel : Nat) (h : Bond N same Q) (hdefining : KeptByDefining N same Q)
  {statements : List Stmt} (hover : Stmt.AllOver N same statements)
include h hdefining hover

/-- **A program runs in step with itself.** -/
theorem inStep_program_self :
    InStep id Q (fun _ => True) (program fuel statements) (program fuel statements) := by
  have hstep := inStep_foldlM_execute (f := id) fuel h hdefining hover none
  rwa [Stmt.allMoved_id] at hstep

/-- Statements that are executed for what they yield run in step with themselves. -/
theorem inStep_mapM_execute_self :
    InStep id Q (fun _ => True) (statements.mapM (execute fuel))
      (statements.mapM (execute fuel)) := by
  induction statements with
  | nil => exact inStep_pure trivial
  | cons s rest ih =>
    rw [List.mapM_cons]
    refine inStep_bind (inStep_execute_self fuel h hover.1 fun _ => hdefining) fun v _ => ?_
    exact inStep_bind (ih hover.2) fun vs _ => inStep_pure trivial

end

end Run

end Lox
