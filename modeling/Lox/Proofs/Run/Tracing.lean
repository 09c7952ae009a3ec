import Lox.Proofs.Run.Lockstep
import Lox.Proofs.Run.Safety

/-! # One run traced at two levels

What a run prints, binds and answers does not depend on the level that its trace is kept at, as long
as every name is bound to a value: an entry may show whatever it is about, so keeping it cannot
fail. The trace of the lower level consists of the entries of the other one that its level keeps.

* **`Trace.Layered`** — two traces that have grown by the same entries, each as far as its level
  keeps them;
* **`Machine.Traced`** — two machines that differ in such traces only;
* **`Run.Transparent`** — an action does the same on both, and leaves two such machines;
* **`Run.transparent_evaluate`**, **`Run.transparent_execute`**, **`Run.transparent_program`** —
  expressions, statements and programs are transparent. -/

namespace Lox

/-! ## Traces of two levels -/

/-- **Two traces have grown in layers** since they were `start` and `start'`: the second one by the
entries of a log, and the first one by those of them that are of its level or below. -/
structure Trace.Layered (start start' t t' : Trace) : Prop where
  level : t.level = start.level
  level' : t'.level = start'.level
  grown : ∃ log : List TraceEntry, (∀ e ∈ log, 0 < e.level ∧ e.level ≤ start'.level) ∧
    t.entries = start.entries ++ (log.filter (·.level ≤ start.level)).toArray ∧
    t'.entries = start'.entries ++ log.toArray

/-- A level keeps the entries above zero up to itself. -/
theorem keepsLevel_eq_true_iff {level l : Int} :
    keepsLevel level l = true ↔ 0 < l ∧ l ≤ level := by
  simp [keepsLevel]

namespace Trace.Layered

variable {start start' t t' : Trace}

theorem refl (start start' : Trace) : Layered start start' start start' :=
  ⟨rfl, rfl, [], nofun, by simp, by simp⟩

/-- Traces that have grown in layers still do when an entry is added to both: the second one keeps
it whenever the first one does. -/
theorem note (h : Layered start start' t t') (hle : start.level ≤ start'.level) (l : Int)
    (text : Unit → String) : Layered start start' (t.note l text) (t'.note l text) := by
  obtain ⟨hlevel, hlevel', log, hlog, hentries, hentries'⟩ := h
  refine ⟨(level_note l text t).trans hlevel, (level_note l text t').trans hlevel', ?_⟩
  unfold Trace.note
  rw [hlevel, hlevel']
  by_cases hkept' : keepsLevel start'.level l = true
  · obtain ⟨hpositive, hle'⟩ := keepsLevel_eq_true_iff.1 hkept'
    refine ⟨log ++ [⟨l, text ()⟩], ?_, ?_, ?_⟩
    · intro e he
      rcases List.mem_append.1 he with he | he
      · exact hlog e he
      · rw [List.mem_singleton.1 he]
        exact ⟨hpositive, hle'⟩
    · by_cases hkept : l ≤ start.level
      · rw [if_pos (keepsLevel_eq_true_iff.2 ⟨hpositive, hkept⟩)]
        simp [hentries, hkept]
      · rw [if_neg fun h => hkept (keepsLevel_eq_true_iff.1 h).2]
        simp [hentries, hkept]
    · rw [if_pos hkept']
      simp [hentries']
  · -- what the higher level does not keep the lower one does not keep either
    have hkept : ¬keepsLevel start.level l = true := by
      rw [keepsLevel_eq_true_iff] at hkept' ⊢
      omega
    rw [if_neg hkept, if_neg hkept']
    exact ⟨log, hlog, hentries, hentries'⟩

end Trace.Layered

/-- **Two machines of one run that is traced at two levels**: their traces have grown in layers, and
everything else is the same. Every name is bound to a value. -/
structure Machine.Traced (start start' : Trace) (m m' : Machine) : Prop where
  chain : m.chain = m'.chain
  output : m.output = m'.output
  valued : m.chain.Valued
  trace : Trace.Layered start start' m.trace m'.trace

namespace Machine.Traced

variable {start start' : Trace} {m m' : Machine}

/-- An entry is added to both traces. -/
theorem note (h : m.Traced start start' m') (hle : start.level ≤ start'.level) (l : Int)
    (text : Unit → String) :
    Traced start start' { m with trace := m.trace.note l text }
      { m' with trace := m'.trace.note l text } :=
  ⟨h.chain, h.output, h.valued, h.trace.note hle l text⟩

/-- Both machines open a scope. -/
theorem entered (h : m.Traced start start' m') (hle : start.level ≤ start'.level) :
    Traced start start' (Run.entered m) (Run.entered m') := by
  have hinside : Traced start start' { m with chain := m.chain.enter }
      { m' with chain := m.chain.enter } := ⟨rfl, h.output, h.valued.enter, h.trace⟩
  unfold Run.entered
  rw [← h.chain]
  exact hinside.note hle 3 _

/-- Both machines close a scope. -/
theorem closed (h : m.Traced start start' m') (hle : start.level ≤ start'.level) (depth : Nat) :
    Traced start start' (Run.closed depth m) (Run.closed depth m') := by
  have hbehind : Traced start start' { m with chain := m.chain.leave }
      { m' with chain := m'.chain.leave } :=
    ⟨congrArg Chain.leave h.chain, h.output, h.valued.leave, h.trace⟩
  exact hbehind.note hle 3 _

end Machine.Traced

namespace Run

variable {α β : Type} {start start' : Trace} {P : α → Prop}

/-- **An action is transparent to tracing**: on two machines of one run that is traced at two levels
it ends in the same way, with an answer that `P` allows, and leaves two such machines. -/
abbrev Transparent (start start' : Trace) (P : α → Prop) (x : Run α) : Prop :=
  InStep id (Machine.Traced start start') P x x

/-! ## Expressions -/

/-- Looking a name up. -/
theorem transparent_lookup (name : Token) :
    Transparent start start' (Shown False) (lookup name) := by
  intro m m' hq
  unfold lookup
  rw [← hq.chain]
  cases hv : m.chain.get? name.lexeme with
  | none => exact ⟨rfl, hq⟩
  | some v => exact ⟨rfl, .inr (hq.valued.isSome_of_get? hv), hq⟩

/-- Assigning to a name. -/
theorem transparent_assign (name : Token) {v : Option Value} (hv : Shown False v) :
    Transparent start start' (fun _ => True) (assign name v) := by
  intro m m' hq
  unfold assign
  rw [← hq.chain]
  cases hassign : m.chain.assign? name.lexeme v with
  | none => exact ⟨rfl, hq⟩
  | some c =>
    have hvalued := hq.valued.assign? (hv.resolve_left id) hassign
    exact ⟨rfl, trivial, rfl, hq.output, hvalued, hq.trace⟩

/-- Binding a name. -/
theorem transparent_define (name : Token) {v : Option Value} (hv : Shown False v) :
    Transparent start start' (fun _ => True) (define name v) :=
  fun _ _ hq => ⟨rfl, trivial, congrArg (Chain.define name.lexeme v) hq.chain, hq.output,
    hq.valued.define (hv.resolve_left id), hq.trace⟩

/-- Counting the scopes. -/
theorem transparent_depth : Transparent start start' (fun _ => True) depth :=
  fun _ _ hq => ⟨congrArg Chain.depth hq.chain, trivial, hq⟩

/-- Printing a line. -/
theorem transparent_print (line : String) :
    Transparent start start' (fun _ => True) (print line) :=
  fun _ _ hq => ⟨rfl, trivial, hq.chain, congrArg (·.push line) hq.output, hq.valued, hq.trace⟩

section

variable (hle : start.level ≤ start'.level)
include hle

/-- Adding a trace entry. -/
theorem transparent_note (level : Int) (text : Unit → String) :
    Transparent start start' (fun _ => True) (note level text) :=
  fun _ _ hq => ⟨rfl, trivial, hq.note hle level text⟩

/-- Adding a trace entry that shows a value. -/
theorem transparent_noteValue (level : Int) (v : Option Value) (text : String → String) :
    Transparent start start' (fun _ => True) (noteValue level v text) := by
  cases v with
  | none => exact inStep_throw _
  | some v => exact transparent_note hle level _

/-- The entry of an evaluated expression. A level that keeps no such entry does not look at the
value, but there is one to be shown. -/
theorem transparent_noted (kind : NodeKind) {v : Option Value} (hv : Shown False v) :
    Transparent start start' (Shown False) (noted kind v) := by
  obtain ⟨v, rfl⟩ := Option.isSome_iff_exists.1 (hv.resolve_left id)
  have heq : noted kind (some v) =
      (note 4 fun _ => kind.name ++ " -> " ++ v.text) >>= fun _ => pure (some v) := by
    funext m
    show (if keepsLevel m.trace.level 4 = true then
        noteValue 4 (some v) (fun text => kind.name ++ " -> " ++ text) >>= fun _ => pure (some v)
      else pure (some v) : Run (Option Value)) m = .ok (some v)
        { m with trace := m.trace.note 4 fun _ => kind.name ++ " -> " ++ v.text }
    split
    · rfl
    · next hkept =>
      rw [Trace.note_of_not_keepsLevel _ (Bool.not_eq_true _ ▸ hkept)]
      rfl
  rw [heq]
  exact inStep_bind_const (transparent_note hle 4 _) (inStep_pure hv)

/-- Declaring a name. -/
theorem transparent_declare (name : Token) {v : Option Value} (hv : Shown False v) :
    Transparent start start' (fun _ => True) (declare name v) :=
  inStep_bind_const (transparent_define name hv)
    (inStep_bind transparent_depth fun _ _ => transparent_noteValue hle 2 v _)

/-- **Expressions are transparent**, if their literals are values. -/
theorem transparent_evaluate {e : Expr} (he : e.Over Set.univ False) :
    Transparent start start' (Shown False) (evaluate e) := by
  induction e with
  | literal value => exact transparent_noted hle _ he
  | grouping inner ih => exact inStep_bind (ih he) fun v hv => transparent_noted hle _ hv
  | unary operator right ih =>
    refine inStep_bind (ih he) fun v _ => ?_
    exact inStep_bind (inStep_applyUnary operator v) fun w hw => transparent_noted hle _ hw
  | binary left operator right ihLeft ihRight =>
    refine inStep_bind (ihLeft he.1) fun v _ => inStep_bind (ihRight he.2) fun w _ => ?_
    exact inStep_bind (inStep_applyBinary operator v w) fun u hu => transparent_noted hle _ hu
  | logical left operator right ihLeft ihRight =>
    refine inStep_bind (ihLeft he.1) fun v hv => ?_
    show Transparent start start' (Shown False) (if decides operator v = true
      then pure v >>= noted .logical else evaluate right >>= noted .logical)
    split
    · exact inStep_bind (inStep_pure hv) fun w hw => transparent_noted hle _ hw
    · exact inStep_bind (ihRight he.2) fun w hw => transparent_noted hle _ hw
  | reference name =>
    exact inStep_bind (transparent_lookup name) fun v hv => transparent_noted hle _ hv
  | assign name inner ih =>
    refine inStep_bind (ih he.2) fun v hv => inStep_bind_const (transparent_assign name hv) ?_
    exact inStep_bind_const (transparent_noteValue hle 2 v _) (transparent_noted hle _ hv)
  | misplaced node => exact inStep_throw _

/-! ## Statements -/

/-- A condition. -/
theorem transparent_holds {condition : Expr} (h : condition.Over Set.univ False) :
    Transparent start start' (fun _ => True) (holds condition) :=
  inStep_map _ (transparent_evaluate hle h) fun _ _ => trivial

/-- The condition of a branch. -/
theorem transparent_branchTaken {condition : Expr} (h : condition.Over Set.univ False) :
    Transparent start start' (fun _ => True) (branchTaken condition) :=
  inStep_bind (transparent_holds hle h) fun _ _ =>
    inStep_bind_const (transparent_note hle 3 _) (inStep_pure trivial)

/-- A scope of its own. -/
theorem transparent_inScope {body : Run α} (hbody : Transparent start start' P body) :
    Transparent start start' P (inScope body) := by
  intro m m' hq
  have hdepth : m.chain.enter.depth = m'.chain.enter.depth := by rw [hq.chain]
  rw [inScope_eq, inScope_eq, hdepth]
  rcases (hbody _ _ (hq.entered hle)).ok_or_error with
    ⟨a, mid, mid', hres, hres', ha, hmid⟩ | ⟨stop, mid, mid', hres, hres', hmid⟩
  · rw [hres, hres']
    exact ⟨rfl, ha, hmid.closed hle _⟩
  · rw [hres, hres']
    exact ⟨rfl, hmid.closed hle _⟩

end

mutual

/-- **Statements are transparent**, if their literals are values. -/
theorem transparent_execute (hle : start.level ≤ start'.level) (fuel : Nat) :
    ∀ s : Stmt, s.Over Set.univ False → Transparent start start' (fun _ => True) (execute fuel s)
  | .expression _, hs => (transparent_evaluate hle hs).mono fun _ _ => trivial
  | .print _, hs =>
    inStep_bind (transparent_evaluate hle hs) fun v _ =>
      inStep_bind (inStep_shown v) fun text _ =>
        inStep_bind_const (transparent_note hle 4 _)
          (inStep_bind_const (transparent_print text) (inStep_pure trivial))
  | .declaration name none, _ =>
    inStep_bind_const (transparent_declare hle name (.inr rfl)) (inStep_pure trivial)
  | .declaration name (some _), hs =>
    inStep_bind (transparent_evaluate hle hs.2) fun _ hv =>
      inStep_bind_const (transparent_declare hle name hv) (inStep_pure trivial)
  | .block body, hs => by
    have hbody := transparent_inScope hle (transparent_executeAll hle fuel body hs)
    exact inStep_bind_const hbody (inStep_pure trivial)
  | .branch _ thenBranch none, hs => by
    refine inStep_bind (transparent_branchTaken hle hs.1) fun taken _ => ?_
    have hthen := transparent_execute hle fuel thenBranch hs.2
    cases taken with
    | true => exact inStep_bind_const hthen (inStep_pure trivial)
    | false => exact inStep_pure trivial
  | .branch _ thenBranch (some elseBranch), hs => by
    refine inStep_bind (transparent_branchTaken hle hs.1) fun taken _ => ?_
    have hthen := transparent_execute hle fuel thenBranch hs.2.1
    have helse := transparent_execute hle fuel elseBranch hs.2.2
    cases taken with
    | true => exact inStep_bind_const hthen (inStep_pure trivial)
    | false => exact inStep_bind_const helse (inStep_pure trivial)
  | .loop _ body, hs => by
    have hbody := inStep_map (R := fun _ => True) (fun _ => ())
      (transparent_execute hle fuel body hs.2) fun _ _ => trivial
    refine inStep_bind (inStep_repeatWhile (transparent_holds hle hs.1) hbody fuel 0) fun _ _ => ?_
    exact inStep_bind_const (transparent_note hle 3 _) (inStep_pure trivial)
  | .misplaced _, _ => inStep_throw _

/-- Statements are transparent one after the other. -/
theorem transparent_executeAll (hle : start.level ≤ start'.level) (fuel : Nat) :
    ∀ ss : List Stmt, Stmt.AllOver Set.univ False ss →
      Transparent start start' (fun _ => True) (executeAll fuel ss)
  | [], _ => inStep_pure trivial
  | s :: rest, hss =>
    inStep_bind_const (transparent_execute hle fuel s hss.1)
      (transparent_executeAll hle fuel rest hss.2)

end

/-- **Programs drawn from tokens are transparent.** -/
theorem transparent_program (hle : start.level ≤ start'.level) (fuel : Nat) {ts : List Token}
    {statements : List Stmt} (hdrawn : Stmt.AllDrawn ts statements) :
    Transparent start start' (fun _ => True) (program fuel statements) := by
  have hshown : False ∨ Stmt.AllDrawn ts statements := .inr hdrawn
  have hover := Stmt.allOver statements (Set.subset_univ _) hshown
  unfold program
  -- the statements in front may have yielded anything
  generalize (none : Option Value) = v
  clear hdrawn hshown
  induction statements generalizing v with
  | nil => exact inStep_pure trivial
  | cons s rest ih =>
    rw [List.foldlM_cons]
    exact inStep_bind (transparent_execute hle fuel s hover.1) fun w _ => ih hover.2 w

end Run

end Lox
